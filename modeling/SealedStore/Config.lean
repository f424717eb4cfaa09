import SealedStore.Cache.Basic
import SealedStore.Cipher.Sealed
import SealedStore.Server.Address
import SealedStore.Server.Remote
import SealedStore.Store.Values

set_option autoImplicit false

/-!
# Configuration

The settings of a store and of a cache, from environment variables or as usual.  A variable whose
bytes are no text counts as unset, and so does a number that cannot be read.
-/

namespace SealedStore

/-- The environment variables by name. -/
abbrev Environment := String → Option Bytes

namespace Environment

/-- The text of a variable. -/
def text? (env : Environment) (name : String) : Option String :=
  (env name).bind Utf8.decode?

/-- The text of a variable that is not empty. -/
def nonempty? (env : Environment) (name : String) : Option String :=
  (env.text? name).filter (· ≠ "")

/-- The 64-bit number of a variable. -/
def number? (env : Environment) (name : String) : Option Nat :=
  (env.text? name).bind (Integer.unsigned? Integer.greatestUnsigned64)

end Environment

/-- The settings of a store. -/
structure StoreConfig where
  /-- The address of the server. -/
  url : String := "redis://127.0.0.1:6379"
  /-- The greatest number of connections. -/
  poolSize : Nat := 16
  /-- The default namespace. -/
  space : Option String := none
  /-- The secret that stored bytes are encrypted with. -/
  secret : Option String := none
  /-- The default deadline of reads that have one. -/
  readTimeout : Duration := .ofMillis 2000
  deriving DecidableEq, Repr, Inhabited

namespace StoreConfig

/-- The settings that an environment gives. -/
def ofEnvironment (env : Environment) : StoreConfig :=
  let usual : StoreConfig := {}
  { url := (env.text? "SEALKV_REDIS_URL").getD usual.url
    poolSize := (env.number? "SEALKV_POOL_SIZE").getD usual.poolSize
    space := env.nonempty? "SEALKV_PREFIX"
    secret := env.nonempty? "SEALKV_ENCRYPTION_KEY"
    readTimeout :=
      ((env.number? "SEALKV_READ_TIMEOUT_MS").map Duration.ofMillis).getD usual.readTimeout }

/-- The encryption that the settings ask for. -/
def encryption (c : StoreConfig) (drawn : (call : Nat) → Sealed.Randomness) : Option Encryption :=
  c.secret.map fun secret => ⟨Utf8.encode secret, .sealing .usual drawn⟩

/-- The handle that the settings ask for. -/
def handle (c : StoreConfig) : Handle :=
  let h : Handle := { readTimeout := c.readTimeout }
  (c.space.map h.withSpace).getD h

/-- A store on the server at the address, with a handle on it.  No connection is made as yet. -/
def connect {σ : Type} (c : StoreConfig) (server : Server.Address → σ)
    (drawn : (call : Nat) → Sealed.Randomness) (identifiers : Nat → String) :
    Answer (Store (Remote σ) × Handle) :=
  match Server.Address.read? c.url with
  | some address =>
    .ok ({ backend := { server := server address }
           encryption := c.encryption drawn
           identifiers }, c.handle)
  | none => .error (.pool "the address of the server is malformed")

end StoreConfig

/-- The settings of a cache. -/
structure CacheConfig where
  /-- The number of entries above which some are evicted; zero for no limit. -/
  maxEntries : Nat := 0
  /-- The greatest age of an entry in seconds; zero for no limit. -/
  ttl : Nat := 300
  /-- The seconds from one pass of upkeep to the next. -/
  upkeepInterval : Nat := 1
  deriving DecidableEq, Repr, Inhabited

namespace CacheConfig

/-- The settings that an environment gives. -/
def ofEnvironment (env : Environment) : CacheConfig :=
  let usual : CacheConfig := {}
  { maxEntries := (env.number? "SEALKV_CACHE_MAX_ENTRIES").getD usual.maxEntries
    ttl := (env.number? "SEALKV_CACHE_TTL").getD usual.ttl
    upkeepInterval := (env.number? "SEALKV_OPTIMIZE_INTERVAL").getD usual.upkeepInterval }

/-- An empty cache with the settings. -/
def cache {V : Type} (c : CacheConfig) : Cache V :=
  { limit := c.maxEntries, ttl := .ofSeconds c.ttl }

end CacheConfig

end SealedStore
