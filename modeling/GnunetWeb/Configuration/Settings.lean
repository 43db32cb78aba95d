import GnunetWeb.Configuration.Table

/-!
# Settings

A setting takes the name of the section as it is written, the option's pointer for the name
of the property and the value's pointer for the value.  A name is looked up in lower case,
and an option in upper case.

Proved here:

* `meets_iff`: when a setting does what it should;
* `iterates_iff`: when the iteration reports what is looked up;
* `settings_iff`: both in every run, and what is found after a run.
-/

namespace GnunetWeb.Configuration.State

variable (js : CaseMapping)

/-- The section and the option of a setting, in any spelling. -/
def Same (c : SetCall) (sectionName option : String) : Prop :=
  js.toLowerCase sectionName = js.toLowerCase c.sectionName.text ∧
    js.toUpperCase option = js.toUpperCase c.option.text

/-- `Object.prototype` is not set. -/
def NotProto (c : SetCall) : Prop := c.sectionName.text ≠ "__proto__"

instance : DecidablePred NotProto := fun c =>
  inferInstanceAs (Decidable (c.sectionName.text ≠ "__proto__"))

/-- A string of the table, by the exact names. -/
def stringAt (st : State) (name option : String) : Option String :=
  ((st.options name).get? option).map Value.toC

/-- What a setting should do. -/
structure Meets (st : State) (c : SetCall) (st' : State) : Prop where
  value : ∀ sectionName option, Same js c sectionName option →
    st'.getValueString js sectionName option = .ok (some c.value.text)
  others : ∀ sectionName option, ¬ Same js c sectionName option →
    st'.getValueString js sectionName option = st.getValueString js sectionName option

/-- There is nothing to change: the value is there, and so is the property that is set.  An
option can be its own pointer's text, and its value is found to be empty then. -/
structure Kept (st : State) (c : SetCall) : Prop where
  notProto : NotProto c
  value :
    if c.sectionName.text = js.toLowerCase c.sectionName.text ∧
        c.property = js.toUpperCase c.option.text then
      c.value.text = ""
    else
      st.stringAt (js.toLowerCase c.sectionName.text) (js.toUpperCase c.option.text) =
        some c.value.text
  other : c.sectionName.text = js.toLowerCase c.sectionName.text →
    c.property ≠ js.toUpperCase c.option.text →
      st.stringAt c.sectionName.text c.property = some ""

/-- What an iteration should do. -/
structure Iterates (st : State) (sectionName : String) : Prop where
  sound : ∀ call ∈ st.iterateSectionValues sectionName,
    st.getValueString js sectionName call.option = .ok (some call.value)
  complete : ∀ option, st.haveValue js sectionName option = .ok true →
    ∃ call ∈ st.iterateSectionValues sectionName,
      js.toUpperCase call.option = js.toUpperCase option
  once : ((st.iterateSectionValues sectionName).map fun call =>
    js.toUpperCase call.option).Nodup

variable {js} {st : State}

/-! ## What is found -/

theorem Plain.getValueString_eq (h : Plain js st) (sectionName option : String) :
    st.getValueString js sectionName option =
      .ok (st.stringAt (js.toLowerCase sectionName) (js.toUpperCase option)) := by
  rw [getValueString, h.getValue_eq]
  rfl

theorem Plain.haveValue_eq (h : Plain js st) (sectionName option : String) :
    st.haveValue js sectionName option =
      .ok (st.stringAt (js.toLowerCase sectionName) (js.toUpperCase option)).isSome := by
  rw [haveValue, h.getValue_eq, stringAt, Option.isSome_map]
  rfl

theorem Plain.stringAt_setValueString (h : Plain js st) {c : SetCall} (hc : NotProto c)
    (name option : String) : (st.setValueString c).stringAt name option =
      if c.sectionName.text = name ∧ c.property = option then some ""
      else st.stringAt name option := by
  rw [stringAt, h.options_setValueString hc]
  by_cases hname : c.sectionName.text = name
  · rw [if_pos hname, FiniteMap.get?_assoc]
    by_cases hoption : c.property = option
    · rw [if_pos hoption, if_pos ⟨hname, hoption⟩]
      rfl
    · rw [if_neg hoption, if_neg fun hand => hoption hand.2, stringAt]
  · rw [if_neg hname, if_neg fun hand => hname hand.1, stringAt]

/-! ## One setting -/

/-- **When a setting does what it should.** -/
theorem Plain.meets_iff (h : Plain js st) {c : SetCall} (hc : NotProto c) :
    Meets js st c (st.setValueString c) ↔ Kept js st c := by
  have hafter : ∀ sectionName option,
      (st.setValueString c).getValueString js sectionName option =
        .ok (if c.sectionName.text = js.toLowerCase sectionName ∧
            c.property = js.toUpperCase option then some ""
          else st.stringAt (js.toLowerCase sectionName) (js.toUpperCase option)) := by
    intro sectionName option
    rw [(h.set hc).getValueString_eq, h.stringAt_setValueString hc]
  have hown : ∀ sectionName option, Same js c sectionName option →
      ((st.setValueString c).getValueString js sectionName option = .ok (some c.value.text) ↔
        if c.sectionName.text = js.toLowerCase c.sectionName.text ∧
            c.property = js.toUpperCase c.option.text then
          c.value.text = ""
        else
          st.stringAt (js.toLowerCase c.sectionName.text) (js.toUpperCase c.option.text) =
            some c.value.text) := by
    intro sectionName option hsame
    rw [hafter, hsame.1, hsame.2, Except.ok.injEq]
    split
    · rw [Option.some.injEq, eq_comm]
    · rfl
  constructor
  · intro hmeets
    refine ⟨hc, (hown _ _ ⟨rfl, rfl⟩).mp (hmeets.value _ _ ⟨rfl, rfl⟩), fun hname hoption => ?_⟩
    have hothers := hmeets.others c.sectionName.text c.property fun hsame =>
      hoption ((toUpperCase_property js c).symm.trans hsame.2)
    rw [hafter, h.getValueString_eq, ← hname, toUpperCase_property, if_pos ⟨rfl, rfl⟩] at hothers
    exact (Except.ok.inj hothers).symm
  · intro hkept
    refine ⟨fun sectionName option hsame => (hown _ _ hsame).mpr hkept.value,
      fun sectionName option hother => ?_⟩
    rw [hafter, h.getValueString_eq]
    by_cases hset : c.sectionName.text = js.toLowerCase sectionName ∧
        c.property = js.toUpperCase option
    · -- the property that is set is found under this spelling, which is not the setting's
      have hname : c.sectionName.text = js.toLowerCase c.sectionName.text := by
        rw [hset.1, js.toLowerCase_toLowerCase]
      have hoption : c.property ≠ js.toUpperCase c.option.text := fun hoption =>
        hother ⟨hset.1.symm.trans hname, hset.2.symm.trans hoption⟩
      rw [if_pos hset, ← hset.1, ← hset.2, hkept.other hname hoption]
    · rw [if_neg hset]

/-! ## An iteration -/

theorem stringAt_eq_some {name option value : String} : st.stringAt name option = some value ↔
    ∃ x, (option, x) ∈ (st.options name).entries ∧ x.toC = value := by
  simp only [stringAt, Option.map_eq_some_iff, FiniteMap.get?_eq_some]

/-- An iteration reports the strings of the object. -/
theorem Plain.mem_iterateSectionValues (h : Plain js st) {sectionName : String} {call : IterCall} :
    call ∈ st.iterateSectionValues sectionName ↔
      call.sectionName = sectionName ∧
        st.stringAt sectionName call.option = some call.value := by
  rw [h.iterateSectionValues_eq, List.mem_map, stringAt_eq_some]
  constructor
  · rintro ⟨⟨option, x⟩, hx, rfl⟩
    exact ⟨rfl, x, hx, rfl⟩
  · rintro ⟨rfl, x, hx, hvalue⟩
    exact ⟨(call.option, x), hx, by rw [hvalue]⟩

theorem Plain.toUpperCase_of_stringAt (h : Plain js st) {name option value : String}
    (hvalue : st.stringAt name option = some value) : js.toUpperCase option = option := by
  obtain ⟨x, hx, -⟩ := Option.map_eq_some_iff.mp hvalue
  exact h.upper name option x hx

/-- **When an iteration does what it should**: the object of the section has the same options
as the one that is looked up. -/
theorem Plain.iterates_iff (h : Plain js st) (sectionName : String) :
    Iterates js st sectionName ↔ ∀ option,
      st.stringAt sectionName option = st.stringAt (js.toLowerCase sectionName) option := by
  constructor
  · intro hiterates option
    cases hown : st.stringAt sectionName option with
    | some value =>
      have hcall : ⟨sectionName, option, value⟩ ∈ st.iterateSectionValues sectionName :=
        h.mem_iterateSectionValues.mpr ⟨rfl, hown⟩
      have hfound := hiterates.sound _ hcall
      rw [h.getValueString_eq, h.toUpperCase_of_stringAt hown] at hfound
      exact (Except.ok.inj hfound).symm
    | none =>
      cases hlower : st.stringAt (js.toLowerCase sectionName) option with
      | none => rfl
      | some value =>
        -- an option that is found and not reported
        have hupper := h.toUpperCase_of_stringAt hlower
        have hhave : st.haveValue js sectionName option = .ok true := by
          rw [h.haveValue_eq, hupper, hlower]
          rfl
        obtain ⟨call, hcall, hsame⟩ := hiterates.complete option hhave
        obtain ⟨-, hcall⟩ := h.mem_iterateSectionValues.mp hcall
        rw [h.toUpperCase_of_stringAt hcall, hupper] at hsame
        rw [hsame, hown] at hcall
        cases hcall
  · intro hsame
    constructor
    case sound =>
      intro call hcall
      obtain ⟨-, hcall⟩ := h.mem_iterateSectionValues.mp hcall
      rw [h.getValueString_eq, h.toUpperCase_of_stringAt hcall, ← hsame, hcall]
    case complete =>
      intro option hhave
      rw [h.haveValue_eq, Except.ok.injEq, ← hsame, Option.isSome_iff_exists] at hhave
      obtain ⟨value, hvalue⟩ := hhave
      exact ⟨⟨sectionName, js.toUpperCase option, value⟩,
        h.mem_iterateSectionValues.mpr ⟨rfl, hvalue⟩, js.toUpperCase_toUpperCase option⟩
    case once =>
      have hkeys : (st.iterateSectionValues sectionName).map (fun call =>
          js.toUpperCase call.option) = (st.options sectionName).keys := by
        rw [h.iterateSectionValues_eq, List.map_map]
        refine List.map_congr_left fun e he => ?_
        exact h.upper sectionName e.1 e.2 (FiniteMap.get?_eq_some.mpr he)
      rw [hkeys]
      exact (st.options sectionName).nodup

/-! ## Runs -/

theorem plain_of_steps {ok : State → SetCall → Prop} (hok : ∀ st c, ok st c → NotProto c)
    {cs : List SetCall} {os : List Empty} {st st' : State} (h : system.Steps ok st cs os st')
    (hst : Plain js st) : Plain js st' := by
  refine h.invariant (fun s c s' o hs hc hstep => ?_) hst
  cases hstep
  exact hs.set (hok s c hc)

/-- What no setting names stays as it is. -/
theorem getValueString_of_steps {cs : List SetCall} {os : List Empty} {st st' : State}
    (h : system.Steps (Kept js) st cs os st') (hst : Plain js st) {sectionName option : String}
    (hcs : ∀ c ∈ cs, ¬ Same js c sectionName option) :
    st'.getValueString js sectionName option = st.getValueString js sectionName option := by
  induction h with
  | nil => rfl
  | snoc h hkept hstep ih =>
    have hplain := plain_of_steps (fun _ _ hkept => hkept.notProto) h hst
    have hmeets := (hplain.meets_iff hkept.notProto).mpr hkept
    cases hstep
    rw [hmeets.others sectionName option (hcs _ (List.mem_append_right _ List.mem_cons_self))]
    exact ih fun c hc => hcs c (List.mem_append_left _ hc)

/-- The last setting is found. -/
theorem getValueString_of_last {cs cs' : List SetCall} {c : SetCall} {os : List Empty}
    {st st' : State} (h : system.Steps (Kept js) st (cs ++ c :: cs') os st') (hst : Plain js st)
    {sectionName option : String} (hc : Same js c sectionName option)
    (hcs : ∀ c' ∈ cs', ¬ Same js c' sectionName option) :
    st'.getValueString js sectionName option = .ok (some c.value.text) := by
  rw [List.append_cons] at h
  obtain ⟨_, _, t', hbefore, hafter, -⟩ := h.of_append
  obtain ⟨_, _, t, hfirst, hkept, hstep, -⟩ := hbefore.of_snoc
  have hplain := plain_of_steps (fun _ _ hkept => hkept.notProto) hfirst hst
  have hmeets := (hplain.meets_iff hkept.notProto).mpr hkept
  cases hstep
  rw [getValueString_of_steps hafter (hplain.set hkept.notProto) hcs]
  exact hmeets.value sectionName option hc

/-- **Settings.**  In every run that does not set `Object.prototype`: a setting does what it
should exactly when there is nothing to change, and an iteration exactly when its section has
the options that are looked up.  Where each setting had nothing to change, the last one is
found. -/
theorem settings_iff :
    (∀ cs os st, system.Run (fun _ c => NotProto c) cs os st →
      (∀ c, NotProto c → (Meets js st c (st.setValueString c) ↔ Kept js st c)) ∧
      ∀ sectionName, Iterates js st sectionName ↔ ∀ option,
        st.stringAt sectionName option = st.stringAt (js.toLowerCase sectionName) option) ∧
    ∀ cs os st, system.Run (Kept js) cs os st → ∀ sectionName option,
      (∀ cs₁ c cs₂, cs = cs₁ ++ c :: cs₂ → Same js c sectionName option →
        (∀ c' ∈ cs₂, ¬ Same js c' sectionName option) →
          st.getValueString js sectionName option = .ok (some c.value.text)) ∧
      ((∀ c ∈ cs, ¬ Same js c sectionName option) →
        st.getValueString js sectionName option = init.getValueString js sectionName option) := by
  refine ⟨fun cs os st h => ?_, fun cs os st h sectionName option => ⟨?_, fun hcs => ?_⟩⟩
  · have hplain : Plain js st := plain_of_steps (fun _ _ hc => hc) h plain_init
    exact ⟨fun c hc => hplain.meets_iff hc, hplain.iterates_iff⟩
  · rintro cs₁ c cs₂ rfl hc hcs
    exact getValueString_of_last h plain_init hc hcs
  · exact getValueString_of_steps h plain_init hcs

/-- `UNIXPATH` is set to what it is. -/
theorem settings_iff_kept : ∃ st,
    system.Run (Kept asciiCase) [⟨⟨16, "ATS", by decide⟩, ⟨32, "unixpath", by decide⟩,
      ⟨48, "ats", by decide⟩⟩] [] st ∧
    st.getValueString asciiCase "Ats" "UnixPath" = .ok (some "ats") := by
  have hkept : Kept asciiCase init ⟨⟨16, "ATS", by decide⟩, ⟨32, "unixpath", by decide⟩,
      ⟨48, "ats", by decide⟩⟩ := by
    refine ⟨by decide, ?_, fun h => absurd h (by decide)⟩
    rw [if_neg (by decide)]
    decide
  have h : system.Run (Kept asciiCase) _ [] _ := .snoc .nil hkept rfl
  exact ⟨_, h, ((@settings_iff asciiCase).2 _ _ _ h "Ats" "UnixPath").1 [] _ [] rfl
    ⟨by decide, by decide⟩ fun _ hc => absurd hc List.not_mem_nil⟩

/-- A setting is not found, and it puts an option that nobody has named; and an iteration
misses what can be looked up. -/
theorem settings_lost : (∃ st,
    system.Run (fun _ c => NotProto c) [⟨⟨16, "ats", by decide⟩, ⟨32, "UNIXPATH", by decide⟩,
      ⟨48, "x", by decide⟩⟩] [] st ∧
    st.getValueString asciiCase "ats" "UNIXPATH" = .ok (some "ats") ∧
    init.getValueString asciiCase "ats" "32" = .ok none ∧
    st.getValueString asciiCase "ats" "32" = .ok (some "")) ∧
    init.haveValue asciiCase "ATS" "UNIXPATH" = .ok true ∧
    init.iterateSectionValues "ATS" = [] := by
  exact ⟨⟨_, .snoc .nil (by decide) rfl, rfl, rfl, rfl⟩, rfl, rfl⟩

end GnunetWeb.Configuration.State
