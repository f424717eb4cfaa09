import SealedStore.Proofs.Envelope.RoundTrip
import SealedStore.Proofs.Store.Scan
import SealedStore.Proofs.Store.ValueWrites

set_option autoImplicit false

/-!
# What a put wrote is read back

On a store that writes JSON text and does not encrypt, a value that was put is read back right away
if it is nested at most 126 deep.  A value that is nested deeper is taken all the same, and then
neither the key can be read nor anything be scanned that the key is among (`readBack_of_put`).
-/

namespace SealedStore

theorem Envelope.payloadOf_ofJson (j : Json) : payloadOf (.ofJson j) = j := by
  unfold Value.ofJson
  split
  · rename_i i inRange
    split
    · exact payloadOf_int _ inRange
    · rfl
  · rfl
  · rfl

/-- A value that was sorted is not sorted otherwise when it is read. -/
theorem Value.reread_ofJson (j : Json) : (ofJson j).reread = ofJson j := by
  cases j with
  | number n =>
    cases n with
    | integer i inRange =>
      simp only [ofJson]
      split <;> rfl
    | double x => rfl
  | _ => rfl

namespace Store

/-- A store as it comes: it writes JSON text and does not encrypt, and its clock shows a year that a
timestamp can have. -/
structure Plain (s : Store Keyspace) : Prop where
  codec : s.codec = .json
  encryption : s.encryption = none
  clock : s.clock.Datable

section Plain

variable {s s' : Store Keyspace}

/-- Bytes are opened as they were written. -/
theorem Plain.openBytes (hs : s.Plain) (raw : Bytes) : s.openBytes raw = Codec.json.read raw := by
  unfold Store.openBytes decryptBytes
  rw [hs.encryption, hs.codec]
  rfl

/-- A put is refused under reserved names only; otherwise it puts the written value in place. -/
theorem Plain.runOn_put (hs : s.Plain) (h : Handle) (key : String) (j : Json)
    (space : Option String) :
    ∃ raw, Codec.json.write s.calls s.clock (.ofJson j) = .ok raw ∧
      (h.put key j space).runOn s =
        match Namespace.checkWritable (h.fullName key space) with
        | .ok () => (.ok (), s.holding (h.fullName key space) raw none)
        | .error e => (.error e, s) := by
  obtain ⟨raw, hwrite⟩ := Codec.json_write_ok s.calls s.clock (.ofJson j)
  refine ⟨raw, hwrite, ?_⟩
  rw [← hs.codec] at hwrite
  exact runOn_write_of_unencrypted hs.encryption hwrite h key none space

/-- What a put leaves under its name: bytes that open to the value if it is not nested too deep, and
that cannot be opened if it is. -/
theorem Plain.stored_of_put (hs : s.Plain) {h : Handle} {key : String} {j : Json}
    {space : Option String} (hj : j.Integral) (hc : j.Canonical)
    (hrun : (h.put key j space).runOn s = (.ok (), s')) :
    Namespace.isCounter (h.fullName key space) = false ∧
      ∃ raw, s'.backend.get s'.clock.unixMillis (h.fullName key space) = .ok (some raw) ∧
        s'.openBytes raw =
          if j.depth ≤ 126 then .ok (.ofJson j) else .error (.serialization .malformed) := by
  obtain ⟨raw, hwrite, hput⟩ := hs.runOn_put h key j space
  rw [hrun] at hput
  cases hcheck : Namespace.checkWritable (h.fullName key space) with
  | error e =>
    rw [hcheck] at hput
    cases hput
  | ok _ =>
    rw [hcheck] at hput
    obtain rfl : s' = s.holding (h.fullName key space) raw none := (Prod.mk.inj hput).2
    refine ⟨Namespace.checkWritable_eq_ok.1 hcheck, raw, ?_, ?_⟩
    · exact Keyspace.get_eq_some.2 ⟨none, Keyspace.live?_put_self _ _ _ _⟩
    · have hread := Codec.json_read_of_write hs.clock
        (by rw [Envelope.payloadOf_ofJson]; exact hj)
        (by rw [Envelope.payloadOf_ofJson]; exact hc) hwrite
      rw [Envelope.payloadOf_ofJson, Value.reread_ofJson, ← hs.openBytes raw] at hread
      exact hread

end Plain

end Store

namespace Handle

variable {h : Handle} {key : String} {space : Option String} {s : Store Keyspace}

theorem runOn_getValue_of_opens {raw : Bytes} {v : Value}
    (hget : s.backend.get s.clock.unixMillis (h.fullName key space) = .ok (some raw))
    (hopen : s.openBytes raw = .ok v) : (h.getValue key space).runOn s = (.ok (some v), s) :=
  Store.runOn_read_eq_some.2 ⟨rfl, raw, hget, hopen⟩

theorem runOn_getValue_of_fails {raw : Bytes} {e : StoreError}
    (hget : s.backend.get s.clock.unixMillis (h.fullName key space) = .ok (some raw))
    (hopen : s.openBytes raw = .error e) :
    (h.getValue key space).runOn s =
      (.error (.inContext "get" (h.fullName key space) e), s) := by
  unfold getValue
  rw [Store.runOn_read, hget]
  simp only [Except.bind, hopen]
  rfl

/-- A scan that comes past a name fails when the bytes under it cannot be opened. -/
theorem runOn_scanValues_of_accepts {name : String} {raw : Bytes} {e : StoreError}
    (hname : Namespace.isCounter name = false)
    (hget : s.backend.get s.clock.unixMillis name = .ok (some raw))
    (hopen : s.openBytes raw = .error e) (g : Handle) {pattern : String} {sp : Option String}
    (haccepts : Glob.accepts (g.fullName pattern sp) name = true) :
    ∃ e', (g.scanValues pattern sp).runOn s = (.error e', s) := by
  have hscanned : name ∈ g.scanned pattern sp s := by
    refine List.mem_filter.2 ⟨Keyspace.mem_scan.2 ⟨Keyspace.contains_of_get hget, haccepts⟩, ?_⟩
    rw [hname]
    rfl
  exact runOn_scanValues_of_fails hscanned (Keyspace.bytes?_eq_some.2 hget) hopen

end Handle

/-! ## Nested arrays -/

/-- A number inside as many arrays as said. -/
def Json.nested : (levels : Nat) → Json
  | 0 => .number (.integer 1 (by decide))
  | levels + 1 => .array [nested levels]

theorem Json.nested_plain (levels : Nat) :
    (nested levels).Integral ∧ (nested levels).Canonical ∧ (nested levels).depth = levels := by
  induction levels with
  | zero => exact ⟨trivial, trivial, rfl⟩
  | succ levels ih =>
    obtain ⟨hj, hc, hdepth⟩ := ih
    refine ⟨⟨hj, trivial⟩, ⟨hc, trivial⟩, ?_⟩
    simp only [nested, depth, depthItems, hdepth]
    omega

/-- A store with nothing in it. -/
def Store.vacant : Store Keyspace := { backend := {}, identifiers := fun _ => "" }

theorem Store.plain_vacant : vacant.Plain := ⟨rfl, rfl, by decide⟩

/-- No reserved name, so the value is taken however deep it is nested. -/
theorem Store.runOn_put_deep (levels : Nat) : ∃ raw,
    (({} : Handle).put "deep" (.nested levels) none).runOn vacant =
      (.ok (), vacant.holding "deep" raw none) := by
  obtain ⟨raw, -, hput⟩ := plain_vacant.runOn_put {} "deep" (.nested levels) none
  have hwritable : Namespace.checkWritable (({} : Handle).fullName "deep" none) = .ok () := rfl
  rw [hwritable] at hput
  exact ⟨raw, hput⟩

theorem Store.bytes?_holding_vacant {name : String} (h : name ≠ "deep") (raw : Bytes) (now : Nat) :
    (vacant.holding "deep" raw none).backend.bytes? now name = none := by
  have hlive : (vacant.holding "deep" raw none).backend.live? now name = none :=
    Keyspace.live?_put_of_ne _ _ _ h.symm
  unfold Keyspace.bytes?
  rw [hlive]
  rfl

/-- What happens right after a put on a store that writes JSON text and does not encrypt, with no
floating-point number in the value.  If the value is nested at most 126 deep, the key reads as the
value, and a scan that can open everything else it comes past succeeds.  If it is nested deeper, the
key cannot be read, and no scan that comes past it succeeds. -/
theorem readBack_of_put {s s' : Store Keyspace} (hs : s.Plain) {h : Handle} {key : String}
    {j : Json} {space : Option String} (hj : j.Integral) (hc : j.Canonical)
    (hrun : (h.put key j space).runOn s = (.ok (), s')) :
    (j.depth ≤ 126 →
      (h.getValue key space).runOn s' = (.ok (some (.ofJson j)), s') ∧
      ∀ (g : Handle) pattern sp,
        (∀ name ∈ g.scanned pattern sp s', name ≠ h.fullName key space →
          ∀ raw, s'.backend.bytes? s'.clock.unixMillis name = some raw →
            ∃ v, s'.openBytes raw = .ok v) →
        ∃ found, (g.scanValues pattern sp).runOn s' = (.ok found, s')) ∧
    (126 < j.depth →
      (h.getValue key space).runOn s' =
        (.error (.inContext "get" (h.fullName key space) (.serialization .malformed)), s') ∧
      ∀ (g : Handle) pattern sp,
        Glob.accepts (g.fullName pattern sp) (h.fullName key space) = true →
        ∃ e, (g.scanValues pattern sp).runOn s' = (.error e, s')) := by
  obtain ⟨hname, raw, hget, hopen⟩ := hs.stored_of_put hj hc hrun
  constructor
  · intro hdepth
    rw [if_pos hdepth] at hopen
    refine ⟨Handle.runOn_getValue_of_opens hget hopen, fun g pattern sp hothers => ?_⟩
    refine ⟨_, Handle.runOn_scanValues_of_opens fun name hscanned raw' hraw' => ?_⟩
    by_cases heq : name = h.fullName key space
    · subst heq
      obtain rfl : raw = raw' := by
        rw [← Keyspace.bytes?_eq_some, hraw'] at hget
        exact (Option.some.inj hget).symm
      exact ⟨_, hopen⟩
    · exact hothers name hscanned heq raw' hraw'
  · intro hdepth
    rw [if_neg (by omega)] at hopen
    refine ⟨Handle.runOn_getValue_of_fails hget hopen, fun g pattern sp haccepts => ?_⟩
    exact Handle.runOn_scanValues_of_accepts hname hget hopen g haccepts

/-- A number in 126 arrays is read back, and a scan of all keys succeeds. -/
theorem readBack_of_put_deepest :
    Store.vacant.Plain ∧ (Json.nested 126).Integral ∧ (Json.nested 126).Canonical ∧
      ∃ s', (({} : Handle).put "deep" (.nested 126) none).runOn Store.vacant = (.ok (), s') ∧
        (({} : Handle).getValue "deep" none).runOn s' =
          (.ok (some (.ofJson (.nested 126))), s') ∧
        ∃ found, (({} : Handle).scanValues "*" none).runOn s' = (.ok found, s') := by
  obtain ⟨hj, hc, hdepth⟩ := Json.nested_plain 126
  obtain ⟨raw, hrun⟩ := Store.runOn_put_deep 126
  obtain ⟨hread, hscan⟩ := (readBack_of_put Store.plain_vacant hj hc hrun).1 (Nat.le_of_eq hdepth)
  refine ⟨Store.plain_vacant, hj, hc, _, hrun, hread, hscan {} "*" none ?_⟩
  intro name _ hne raw' hraw'
  rw [Store.bytes?_holding_vacant hne] at hraw'
  cases hraw'

/-- A number in 127 arrays is taken, and then its key cannot be read and no scan of all keys
succeeds. -/
theorem readBack_too_deep :
    Store.vacant.Plain ∧ (Json.nested 127).Integral ∧ (Json.nested 127).Canonical ∧
      ∃ s', (({} : Handle).put "deep" (.nested 127) none).runOn Store.vacant = (.ok (), s') ∧
        (({} : Handle).getValue "deep" none).runOn s' =
          (.error (.inContext "get" "deep" (.serialization .malformed)), s') ∧
        ∃ e, (({} : Handle).scanValues "*" none).runOn s' = (.error e, s') := by
  obtain ⟨hj, hc, hdepth⟩ := Json.nested_plain 127
  obtain ⟨written, hrun⟩ := Store.runOn_put_deep 127
  obtain ⟨hname, raw, hget, hopen⟩ := Store.plain_vacant.stored_of_put hj hc hrun
  rw [hdepth, if_neg (by decide)] at hopen
  exact ⟨Store.plain_vacant, hj, hc, _, hrun, Handle.runOn_getValue_of_fails hget hopen,
    Handle.runOn_scanValues_of_accepts hname hget hopen {} (Glob.accepts_star "deep")⟩

end SealedStore
