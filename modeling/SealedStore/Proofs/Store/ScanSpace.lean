import SealedStore.Proofs.Envelope.RoundTrip
import SealedStore.Proofs.Store.Scan
import SealedStore.Proofs.Store.TimedMap

set_option autoImplicit false

/-!
# Whether a scan stays inside its namespace

The name of a namespace is put in front of the pattern as it is, so special characters in it count
as part of the pattern.  A scan of a namespace finds all values of the namespace and nothing else,
whatever was written before, exactly if its name has no special characters (`scansOwn_iff`).
-/

namespace SealedStore

namespace Store

section Represents

variable {s : Store Keyspace} {m : TimedMap}

/-- Where the map says what is live, all live bytes can be opened. -/
theorem bytes?_of_represents (hm : s.Represents m) {now : Nat} {name : String} {raw : Bytes}
    (h : s.backend.bytes? now name = some raw) :
    ∃ v, m.value? now name = some v ∧ s.openBytes raw = .ok v.reread := by
  obtain ⟨deadline, hlive⟩ := Keyspace.get_eq_some.1 (Keyspace.bytes?_eq_some.1 h)
  rcases live?_of_represents hm now name with ⟨hnone, -⟩ | ⟨raw', d, v, hsome, hvalue, hopen⟩
  · rw [hlive] at hnone
    cases hnone
  · rw [hlive] at hsome
    cases hsome
    exact ⟨v, hvalue, hopen⟩

theorem bytes?_of_value? (hm : s.Represents m) {now : Nat} {name : String} {v : Value}
    (h : m.value? now name = some v) :
    ∃ raw, s.backend.bytes? now name = some raw ∧ s.openBytes raw = .ok v.reread := by
  rcases live?_of_represents hm now name with ⟨-, hnone⟩ | ⟨raw, d, v', hlive, hvalue, hopen⟩
  · rw [h] at hnone
    cases hnone
  · obtain rfl : v = v' := Option.some.inj (h.symm.trans hvalue)
    exact ⟨raw, Keyspace.bytes?_eq_some.2 (Keyspace.get_eq_some.2 ⟨d, hlive⟩), hopen⟩

/-- A scan of what was written never fails. -/
theorem runOn_scanValues_of_represents (hm : s.Represents m) (h : Handle) (pattern : String)
    (space : Option String) :
    (h.scanValues pattern space).runOn s = (.ok (.ofList (h.entries pattern space s)), s) := by
  refine Handle.runOn_scanValues_of_opens fun name _ raw hraw => ?_
  obtain ⟨v, -, hopen⟩ := bytes?_of_represents hm hraw
  exact ⟨_, hopen⟩

/-- A scan has an entry for each live value under a full name that the full pattern accepts. -/
theorem mem_entries_of_represents (hm : s.Represents m) {h : Handle} {pattern : String}
    {space : Option String} {key : String} {v : Value} :
    (key, v) ∈ h.entries pattern space s ↔
      ∃ name, Glob.accepts (h.fullName pattern space) name = true ∧
        Namespace.isCounter name = false ∧
        (m.value? s.clock.unixMillis name).map Value.reread = some v ∧
        Namespace.strip name (space.or h.space) = key := by
  unfold Handle.entries Handle.scanned
  simp only [List.mem_filterMap, List.mem_map, exists_exists_and_eq_and, Handle.found?_eq_some,
    List.mem_filter, Keyspace.mem_scan, Bool.not_eq_true']
  constructor
  · rintro ⟨name, ⟨⟨-, haccepts⟩, hcounter⟩, hstrip, raw, hraw, hopen⟩
    obtain ⟨w, hvalue, hw⟩ := bytes?_of_represents hm hraw
    obtain rfl : w.reread = v := Except.ok.inj (hw.symm.trans hopen)
    exact ⟨name, haccepts, hcounter, by rw [hvalue]; rfl, hstrip⟩
  · rintro ⟨name, haccepts, hcounter, hvalue, hstrip⟩
    obtain ⟨w, hw, rfl⟩ := Option.map_eq_some_iff.1 hvalue
    obtain ⟨raw, hraw, hopen⟩ := bytes?_of_value? hm hw
    have hthere := Keyspace.contains_of_get (Keyspace.bytes?_eq_some.1 hraw)
    exact ⟨name, ⟨⟨hthere, haccepts⟩, hcounter⟩, hstrip, raw, hraw, hopen⟩

end Represents

end Store

/-! ## Namespaces whose scans find what is their own -/

/-- On every store that began empty, after any calls, a scan of all keys of the namespace finds
exactly the values that are live under full names of the namespace, counters apart. -/
def ScansOwn (space : String) : Prop :=
  ∀ s : Store Keyspace, s.Faithful → s.backend = {} → ∀ (steps : List ValueStep) (h : Handle),
    let t := (ValueStep.run s steps).1
    let value? := (ValueStep.run s steps).2.value? t.clock.unixMillis
    ∃ found, (h.scanValues "*" (some space)).runOn t = (.ok found, t) ∧
      ∀ key v, found[key]? = some v ↔ Namespace.isCounter (Namespace.key space key) = false ∧
        (value? (Namespace.key space key)).map Value.reread = some v

theorem Namespace.effective?_some {space : String} (hspace : space ≠ "")
    (default : Option String) : effective? (some space) default = some space := by
  simp [effective?, hspace]

theorem Handle.fullName_some {space : String} (hspace : space ≠ "") (h : Handle) (key : String) :
    h.fullName key (some space) = Namespace.key space key := by
  unfold fullName Namespace.resolve
  rw [Namespace.effective?_some hspace]

theorem Namespace.strip_of_foreign {space name : String} (hspace : space ≠ "")
    (h : ¬ (key space "").toList <+: name.toList) : strip name (some space) = name := by
  have hmark : ¬ (key space "").toList.isPrefixOf name.toList = true :=
    fun hp => h (List.isPrefixOf_iff_prefix.1 hp)
  unfold strip
  simp only [Option.filter_some, hspace, ne_eq, not_false_eq_true, decide_true, ↓reduceIte]
  exact if_neg hmark

theorem scansOwn_of_isLiteral {space : String} (hspace : space ≠ "")
    (hlit : Glob.IsLiteral space.toList) : ScansOwn space := by
  intro s hs hempty steps h t value?
  have hm : t.Represents (ValueStep.run s steps).2 := Store.represents_run hs hempty steps
  have hliteral : ∀ name ∈ Namespace.effective? (some space) h.space,
      Glob.IsLiteral name.toList := by
    rw [Namespace.effective?_some hspace]
    rintro _ ⟨⟩
    exact hlit
  refine ⟨_, Store.runOn_scanValues_of_represents hm h "*" (some space), fun key v => ?_⟩
  rw [getElem?_ofList_eq_some (Handle.distinct_entries hliteral),
    Store.mem_entries_of_represents hm]
  have hname := Handle.fullName_some hspace h key
  constructor
  · rintro ⟨name, haccepts, hcounter, hvalue, hstrip⟩
    obtain ⟨key', rfl, -⟩ := (Handle.accepts_fullName hliteral).1 haccepts
    obtain rfl : key' = key := (Namespace.strip_resolve key' (some space) h.space).symm.trans hstrip
    rw [hname] at hcounter hvalue
    exact ⟨hcounter, hvalue⟩
  · rintro ⟨hcounter, hvalue⟩
    rw [← hname] at hcounter hvalue
    exact ⟨_, (Handle.accepts_fullName hliteral).2 ⟨key, rfl, Glob.accepts_star key⟩, hcounter,
      hvalue, Namespace.strip_resolve key (some space) h.space⟩

/-! ## Special characters -/

/-- A store with nothing in it, which refuses to write what it could not read. -/
def blankStore : Store Keyspace :=
  { backend := {}, codec := Codec.json.checked, identifiers := fun _ => "" }

theorem datable_blankStore : blankStore.clock.Datable := by decide

theorem faithful_blankStore : blankStore.Faithful :=
  ⟨Codec.readsBack_checked _, nofun⟩

/-- One text is written under a key. -/
def onlyText (key : String) (space : Option String) : List ValueStep :=
  [.call {} (.putValue key (.text "x") space)]

section OnlyText

variable {key name : String} {space : Option String}

/-- After that its full name has the text and no other name has anything. -/
theorem run_onlyText (hname : ({} : Handle).fullName key space = name)
    (hcounter : Namespace.isCounter name = false) :
    (ValueStep.run blankStore (onlyText key space)).2 =
      TimedMap.write (fun _ => none) name (.text "x") none := by
  obtain ⟨raw, hwrite⟩ := Codec.checked_write_text 0 datable_blankStore "x"
  have hput : (({} : Handle).putValue key (.text "x") space).runOn blankStore =
      (.ok (), blankStore.holding name raw none) := by
    have hrun := Store.runOn_write_of_unencrypted (s := blankStore) rfl hwrite {} key none space
    rw [hname, Namespace.checkWritable_eq_ok.2 hcounter] at hrun
    exact hrun
  unfold ValueStep.run onlyText
  simp only [List.foldl_cons, List.foldl_nil, ValueStep.next, ValueCall.perform, hput,
    ValueCall.effect, hname]

/-- Then a scan of a namespace finds the text under its full name, if the full pattern accepts that
and it lies outside the namespace. -/
theorem contains_of_accepts (hname : ({} : Handle).fullName key space = name)
    (hcounter : Namespace.isCounter name = false) {scanned : String} (hscanned : scanned ≠ "")
    (haccepts : Glob.accepts (Namespace.key scanned "*") name = true)
    (hforeign : ¬ (Namespace.key scanned "").toList <+: name.toList) :
    ∃ found, (({} : Handle).scanValues "*" (some scanned)).runOn
        (ValueStep.run blankStore (onlyText key space)).1 =
          (.ok found, (ValueStep.run blankStore (onlyText key space)).1) ∧
      found.contains name = true := by
  have hm := Store.represents_run faithful_blankStore rfl (onlyText key space)
  refine ⟨_, Store.runOn_scanValues_of_represents hm {} "*" (some scanned), ?_⟩
  rw [run_onlyText hname hcounter] at hm
  have hentry : (name, Value.text "x") ∈ ({} : Handle).entries "*" (some scanned)
      (ValueStep.run blankStore (onlyText key space)).1 := by
    refine (Store.mem_entries_of_represents hm).2 ⟨name, ?_, hcounter, ?_, ?_⟩
    · rw [Handle.fullName_some hscanned]
      exact haccepts
    · simp [TimedMap.value?, TimedMap.write, Value.reread]
    · exact Namespace.strip_of_foreign hscanned hforeign
  rw [Std.ExtTreeMap.contains_ofList, List.contains_iff_mem]
  exact List.mem_map_of_mem (f := Prod.fst) hentry

/-- A namespace whose full pattern accepts a name outside of it does not keep to itself. -/
theorem not_scansOwn_of_accepts (hcounter : Namespace.isCounter name = false) {scanned : String}
    (hscanned : scanned ≠ "") (haccepts : Glob.accepts (Namespace.key scanned "*") name = true)
    (hforeign : ¬ (Namespace.key scanned "").toList <+: name.toList) : ¬ ScansOwn scanned := by
  intro hown
  have hname : ({} : Handle).fullName name none = name := rfl
  obtain ⟨found, hscan, hfound⟩ := hown blankStore faithful_blankStore rfl (onlyText name none) {}
  obtain ⟨found', hscan', hcontains⟩ :=
    contains_of_accepts hname hcounter hscanned haccepts hforeign
  obtain rfl : found = found' := Except.ok.inj (Prod.mk.inj (hscan.symm.trans hscan')).1
  rw [Std.ExtTreeMap.contains_eq_isSome_getElem?] at hcontains
  obtain ⟨v, hv⟩ := Option.isSome_iff_exists.1 hcontains
  -- The namespace would have to have a value under that name as a key.
  obtain ⟨-, hvalue⟩ := (hfound name v).1 hv
  have hother : Namespace.key scanned name ≠ name := by
    intro heq
    refine hforeign ⟨name.toList, ?_⟩
    conv_rhs => rw [← heq]
    simp [Namespace.key]
  rw [run_onlyText hname hcounter] at hvalue
  simp [TimedMap.value?, TimedMap.write, Function.update_of_ne hother] at hvalue

end OnlyText

/-- A namespace whose scans find what is its own has no special characters. -/
theorem isLiteral_of_scansOwn {space : String} (hspace : space ≠ "") (h : ScansOwn space) :
    Glob.IsLiteral space.toList := by
  by_contra hspecial
  obtain ⟨before, hbefore⟩ := Glob.shortest_eq_append 'x' space.toList
  have hname : (String.ofList (Glob.shortest 'x' space.toList)).toList =
      Glob.shortest 'x' space.toList := String.toList_ofList
  have hcounter : Namespace.isCounter (String.ofList (Glob.shortest 'x' space.toList)) = false := by
    refine Namespace.isCounter_eq_false ?_
    rw [hname, hbefore, List.getLast?_concat]
    decide
  refine not_scansOwn_of_accepts hcounter hspace ?_ ?_ h
  · have hpattern : (Namespace.key space "*").toList = space.toList ++ [':', '*'] := by
      simp [Namespace.key]
    change Glob.fits (Namespace.key space "*").toList _ = true
    rw [hpattern, hname]
    exact Glob.fits_shortest
  · have hmark : (Namespace.key space "").toList = space.toList ++ [':'] := by
      simp [Namespace.key]
    rw [hmark, hname]
    exact fun hbegins => hspecial (Glob.isLiteral_of_prefix_shortest (by decide) hbegins)

/-- Scans of a namespace find all values of the namespace and nothing else, whatever was written
before, if and only if the name of the namespace has no special characters. -/
theorem scansOwn_iff {space : String} (hspace : space ≠ "") :
    ScansOwn space ↔ Glob.IsLiteral space.toList :=
  ⟨isLiteral_of_scansOwn hspace, scansOwn_of_isLiteral hspace⟩

/-- Users keep to themselves, and a namespace with a star does not. -/
theorem scansOwn_iff_users :
    ("users" ≠ "" ∧ ScansOwn "users") ∧ ("a*" ≠ "" ∧ ¬ ScansOwn "a*") := by
  have husers : "users" ≠ "" := by decide
  have hstar : "a*" ≠ "" := by decide
  exact ⟨⟨husers, (scansOwn_iff husers).2 (by decide)⟩,
    hstar, fun h => absurd ((scansOwn_iff hstar).1 h) (by decide)⟩

/-- A scan of the namespace `a*` finds the key `k` of the namespace `a`. -/
theorem scanValues_foreign :
    let t := (ValueStep.run blankStore (onlyText "k" (some "a"))).1
    ¬ (Namespace.key "a*" "").toList <+: "a:k".toList ∧
      ∃ found, (({} : Handle).scanValues "*" (some "a*")).runOn t = (.ok found, t) ∧
        found.contains "a:k" = true := by
  -- The star of the namespace stands for nothing, and the one behind the colon for the key.
  have hfits : Glob.fits "a*:*".toList "a:k".toList = true :=
    Glob.afterStar_of_fits (Glob.afterStar_nil ['k'])
  have hforeign : ¬ (Namespace.key "a*" "").toList <+: "a:k".toList := by decide
  exact ⟨hforeign, contains_of_accepts rfl (by decide) (by decide) hfits hforeign⟩

end SealedStore
