import GnunetWeb.Heap
import GnunetWeb.Library.EventSystem
import GnunetWeb.Library.FiniteMap
import Mathlib

/-!
# The configuration

`configuration.js`.  `CONFIG` is a JavaScript object, with an object for each section.  A
name is looked up with `in`, which sees what `Object.prototype` has, too.

Proved here:

* `getValue_eq`, `iterateSectionValues_eq`: what the functions find where nothing has been
  put on `Object.prototype`;
* `options_setValueString`: what a setting changes.
-/

namespace GnunetWeb.Configuration

/-- A string argument: where it lies, and what `UTF8ToString` reads there. -/
structure CString where
  pointer : Ptr
  text : String
  nonNull : pointer ≠ 0

/-- The case mappings of the JavaScript strings. -/
structure CaseMapping where
  toLowerCase : String → String
  toUpperCase : String → String
  toLowerCase_toLowerCase : ∀ s, toLowerCase (toLowerCase s) = toLowerCase s
  toUpperCase_toUpperCase : ∀ s, toUpperCase (toUpperCase s) = toUpperCase s
  /-- ASCII text without a small letter is in upper case. -/
  toUpperCase_ascii : ∀ s, (s.toList.all fun c => c.toNat < 128 && !c.isLower) = true →
    toUpperCase s = s

/-- The mappings of ASCII text. -/
def asciiCase : CaseMapping where
  toLowerCase s := .ofList (s.toList.map Char.toLower)
  toUpperCase s := .ofList (s.toList.map Char.toUpper)
  toLowerCase_toLowerCase s := by simp [Function.comp_def]
  toUpperCase_toUpperCase s := by simp [Function.comp_def]
  toUpperCase_ascii s h := by
    have hascii : ∀ c ∈ s.toList, c.toUpper = c := by
      intro c hc
      have hall := List.all_eq_true.mp h c hc
      rw [Bool.and_eq_true, Bool.not_eq_true'] at hall
      exact Char.toUpper_eq_of_not_isLower (Bool.eq_false_iff.mp hall.2)
    rw [List.map_congr_left hascii, List.map_id', String.ofList_toList]

/-- What a property of a section can hold.  No number there is 0. -/
inductive Value where
  | string (s : String)
  | number (n : {n : Nat // n ≠ 0})
  | bool (b : Bool)
  deriving DecidableEq

/-- The C string that `ccall` and `ccallFunc` make: only a string has characters. -/
def Value.toC : Value → String
  | .string s => s
  | .number _ | .bool _ => ""

/-- `$CONFIG` -/
def config : List (String × FiniteMap String Value) := [
  ("peer", ⟨[("PRIVATE_KEY", .string "/private_key")], by decide⟩),
  ("statistics", ⟨[("DISABLE", .bool true)], by decide⟩),
  ("transport", ⟨[("UNIXPATH", .string "transport"), ("NEIGHBOUR_LIMIT", .number ⟨50, by decide⟩),
    ("PLUGINS", .string "http_client webrtc")], by decide⟩),
  ("ats", ⟨[("UNIXPATH", .string "ats"), ("UNSPECIFIED_QUOTA_OUT", .string "65536"),
    ("UNSPECIFIED_QUOTA_IN", .string "65536"), ("LOOPBACK_QUOTA_OUT", .string "65536"),
    ("LOOPBACK_QUOTA_IN", .string "65536"), ("LAN_QUOTA_OUT", .string "65536"),
    ("LAN_QUOTA_IN", .string "65536"), ("WAN_QUOTA_OUT", .string "65536"),
    ("WAN_QUOTA_IN", .string "65536"), ("WLAN_QUOTA_OUT", .string "65536"),
    ("WLAN_QUOTA_IN", .string "65536"), ("BLUETOOTH_QUOTA_OUT", .string "65536"),
    ("BLUETOOTH_QUOTA_IN", .string "65536")], by decide⟩),
  ("core", ⟨[("UNIXPATH", .string "core"), ("USE_EPHEMERAL_KEYS", .bool true)], by decide⟩),
  ("dht", ⟨[("UNIXPATH", .string "dht"), ("CACHE_RESULTS", .bool true),
    ("DISABLE_TRY_CONNECT", .bool false)], by decide⟩),
  ("dhtcache", ⟨[("QUOTA", .string "8 MB"), ("DATABASE", .string "heap"),
    ("DISABLE_BF", .bool true)], by decide⟩),
  ("nse", ⟨[("UNIXPATH", .string "nse"), ("PROOFFILE", .string "/nse/proof.dat"),
    ("WORKDELAY", .string "5 ms"), ("INTERVAL", .string "1 h"),
    ("WORKBITS", .number ⟨22, by decide⟩)], by decide⟩),
  ("cadet", ⟨[("UNIXPATH", .string "cadet"), ("MAX_MSGS_QUEUE", .number ⟨10000, by decide⟩),
    ("MAX_CONNECTIONS", .number ⟨1000, by decide⟩), ("REFRESH_CONNECTION_TIME", .string "5 min"),
    ("ID_ANNOUNCE_TIME", .string "1 h")], by decide⟩),
  ("datastore", ⟨[("UNIXPATH", .string "datastore"), ("DATABASE", .string "emscripten"),
    ("QUOTA", .string "1 GB"), ("BLOOMFILTER", .string "/datastore/bloomfilter")], by decide⟩),
  ("fs", ⟨[("UNIXPATH", .string "fs"), ("DELAY", .bool true), ("CONTENT_CACHING", .bool true),
    ("CONTENT_PUSHING", .bool true), ("MAX_CADET_CLIENTS", .number ⟨128, by decide⟩),
    ("RESPECT", .string "/fs/credit")], by decide⟩),
  ("peerinfo", ⟨[("UNIXPATH", .string "peerinfo"), ("HOSTS", .string "/peerinfo/hosts")],
    by decide⟩),
  ("peerstore", ⟨[("UNIXPATH", .string "peerstore"), ("DATABASE", .string "emscripten")],
    by decide⟩),
  ("arm", ⟨[("CONFIG", .string "")], by decide⟩)]

/-- The functions of `Object.prototype`.  Each is an object; what it has of its own has a
small letter in its name and is not enumerated. -/
def inherited : List String :=
  ["constructor", "__defineGetter__", "__defineSetter__", "hasOwnProperty", "__lookupGetter__",
    "__lookupSetter__", "isPrototypeOf", "propertyIsEnumerable", "toString", "valueOf",
    "toLocaleString"]

structure State where
  /-- the objects that `CONFIG` has under a name, with what has been put on them -/
  sections : FiniteMap String (FiniteMap String Value)
  /-- what has been put on `Object.prototype` -/
  prototype : FiniteMap String Value

def init : State where
  sections := ⟨config ++ inherited.map fun name => (name, .empty), by decide⟩
  prototype := .empty

/-- What `CONFIG` has under a name: an object with these properties of its own, or a number
from `Object.prototype`. -/
inductive Property where
  | object (options : FiniteMap String Value)
  | primitive

namespace Property

/-- The properties of its own. -/
def own : Property → FiniteMap String Value
  | .object options => options
  | .primitive => .empty

end Property

/-- The `in` operator has a number on its right. -/
inductive TypeError where
  | notAnObject

/-- What the iterator is called with. -/
structure IterCall where
  sectionName : String
  option : String
  value : String
  deriving DecidableEq

structure SetCall where
  sectionName : CString
  option : CString
  value : CString

namespace SetCall

/-- The name of the property that is set: the text of the option's pointer. -/
def property (c : SetCall) : String := Nat.repr c.option.pointer

/-- The value that is set: the pointer. -/
def stored (c : SetCall) : Value := .number ⟨c.value.pointer, c.value.nonNull⟩

end SetCall

namespace State

/-- `CONFIG[name]`, if `name in CONFIG`. -/
def property (st : State) (name : String) : Option Property :=
  match st.sections.get? name with
  | some options => some (.object options)
  | none =>
    if name = "__proto__" then some (.object st.prototype)
    else (st.prototype.get? name).map fun _ => .primitive

/-- `for (var option in section)`, with `section[option]`: the properties of its own, and the
inherited ones that they do not hide.  The order is left open. -/
def enumerate (st : State) (p : Property) : List (String × Value) :=
  p.own.entries ++ st.prototype.entries.filter fun e => e.1 ∉ p.own.keys

section Functions

variable (js : CaseMapping)

/-- `GNUNET_CONFIGURATION_get_value`; `none` is `undefined`. -/
def getValue (st : State) (sectionName option : String) : Except TypeError (Option Value) :=
  let sectionName := js.toLowerCase sectionName
  let option := js.toUpperCase option
  match st.property sectionName with
  | none => .ok none
  | some .primitive => .error .notAnObject
  | some (.object options) => .ok ((options.get? option).or (st.prototype.get? option))

/-- `GNUNET_CONFIGURATION_have_value` -/
def haveValue (st : State) (sectionName option : String) : Except TypeError Bool :=
  (st.getValue js sectionName option).map Option.isSome

/-- `GNUNET_CONFIGURATION_get_value_string`: the string for which it returns 1, and `none` for
the result -1. -/
def getValueString (st : State) (sectionName option : String) :
    Except TypeError (Option String) :=
  (st.getValue js sectionName option).map (Option.map Value.toC)

end Functions

/-- `GNUNET_CONFIGURATION_iterate_section_values` -/
def iterateSectionValues (st : State) (sectionName : String) : List IterCall :=
  match st.property sectionName with
  | none => []
  | some section' => (st.enumerate section').map fun e => ⟨sectionName, e.1, e.2.toC⟩

/-- `GNUNET_CONFIGURATION_set_value_string` -/
def setValueString (st : State) (c : SetCall) : State :=
  let sectionName := c.sectionName.text
  let st :=
    if (st.property sectionName).isNone then
      { st with sections := st.sections.assoc sectionName .empty }
    else st
  match st.sections.get? sectionName with
  | some sec =>
    { st with sections := st.sections.assoc sectionName (sec.assoc c.property c.stored) }
  | none =>
    if sectionName = "__proto__" then
      { st with prototype := st.prototype.assoc c.property c.stored }
    else st -- a number takes no property

/-- The settings, one after the other. -/
def system : EventSystem State SetCall Empty := ⟨init, fun st c => some (st.setValueString c, [])⟩

/-! ## Where nothing has been put on `Object.prototype` -/

/-- What the object of a section has of its own. -/
def options (st : State) (name : String) : FiniteMap String Value :=
  (st.sections.get? name).getD .empty

/-- `Object.prototype` is as it was, and the names of the options are in upper case. -/
structure Plain (js : CaseMapping) (st : State) : Prop where
  prototype : st.prototype = .empty
  proto : st.sections.get? "__proto__" = none
  upper : ∀ name option v, (st.options name).get? option = some v → js.toUpperCase option = option

variable {js : CaseMapping} {st : State}

theorem Plain.property_eq (h : Plain js st) (name : String) :
    st.property name = some (.object (st.options name)) ∨
      st.property name = none ∧ st.options name = .empty := by
  unfold property options
  cases hget : st.sections.get? name with
  | some options => exact .inl rfl
  | none =>
    rw [h.prototype]
    by_cases hname : name = "__proto__"
    · exact .inl (if_pos hname)
    · exact .inr ⟨if_neg hname, rfl⟩

theorem Plain.enumerate_eq (h : Plain js st) (p : Property) : st.enumerate p = p.own.entries := by
  rw [enumerate, h.prototype, FiniteMap.empty, List.filter_nil, List.append_nil]

theorem Plain.getValue_eq (h : Plain js st) (sectionName option : String) :
    st.getValue js sectionName option =
      .ok ((st.options (js.toLowerCase sectionName)).get? (js.toUpperCase option)) := by
  unfold getValue
  rcases h.property_eq (js.toLowerCase sectionName) with hp | ⟨hp, he⟩
  · simp only [hp, h.prototype]
    exact congrArg _ (Option.or_none)
  · simp only [hp, he]
    rfl

theorem Plain.iterateSectionValues_eq (h : Plain js st) (sectionName : String) :
    st.iterateSectionValues sectionName =
      (st.options sectionName).entries.map fun e => ⟨sectionName, e.1, e.2.toC⟩ := by
  unfold iterateSectionValues
  rcases h.property_eq sectionName with hp | ⟨hp, he⟩
  · simp only [hp, h.enumerate_eq, Property.own]
  · simp only [hp, he]
    rfl

/-- The object of a section is there, and takes the property. -/
theorem Plain.setValueString_eq (h : Plain js st) {c : SetCall}
    (hc : c.sectionName.text ≠ "__proto__") :
    ∃ sections : FiniteMap String (FiniteMap String Value),
      st.setValueString c = ⟨sections.assoc c.sectionName.text
        ((st.options c.sectionName.text).assoc c.property c.stored), st.prototype⟩ ∧
      ∀ name, c.sectionName.text ≠ name → sections.get? name = st.sections.get? name := by
  unfold setValueString
  cases hget : st.sections.get? c.sectionName.text with
  | some options =>
    have hp : st.property c.sectionName.text = some (.object options) := by
      rw [property, hget]
    refine ⟨st.sections, ?_, fun _ _ => rfl⟩
    simp only [hp, Option.isNone_some, Bool.false_eq_true, if_false, hget, State.options,
      Option.getD_some]
  | none =>
    have hp : st.property c.sectionName.text = none := by
      rw [property, hget, h.prototype]
      exact if_neg hc
    refine ⟨st.sections.assoc c.sectionName.text .empty, ?_, fun name hname => ?_⟩
    · simp only [hp, Option.isNone_none, if_true, FiniteMap.get?_assoc, State.options, hget,
        Option.getD_none]
    · rw [FiniteMap.get?_assoc, if_neg hname]

/-- **What a setting changes.** -/
theorem Plain.options_setValueString (h : Plain js st) {c : SetCall}
    (hc : c.sectionName.text ≠ "__proto__") (name : String) :
    (st.setValueString c).options name =
      if c.sectionName.text = name then (st.options name).assoc c.property c.stored
      else st.options name := by
  obtain ⟨sections, hset, hother⟩ := h.setValueString_eq hc
  rw [hset, State.options, FiniteMap.get?_assoc]
  by_cases hname : c.sectionName.text = name
  · subst hname
    rw [if_pos rfl, if_pos rfl, Option.getD_some]
  · rw [if_neg hname, if_neg hname, hother name hname, State.options]

theorem plain_init : Plain js init where
  prototype := rfl
  proto := rfl
  upper name option v hv := by
    have hnames : ∀ e ∈ init.sections.entries, ∀ o ∈ e.2.entries,
        (o.1.toList.all fun c => c.toNat < 128 && !c.isLower) = true := by decide
    cases hget : init.sections.get? name with
    | some options =>
      rw [State.options, hget] at hv
      exact js.toUpperCase_ascii _
        (hnames _ (FiniteMap.get?_eq_some.mp hget) _ (FiniteMap.get?_eq_some.mp hv))
    | none =>
      rw [State.options, hget] at hv
      cases hv

/-- A decimal text is in upper case. -/
theorem toUpperCase_property (js : CaseMapping) (c : SetCall) :
    js.toUpperCase c.property = c.property := by
  refine js.toUpperCase_ascii _ (List.all_eq_true.mpr fun d hd => ?_)
  have hdigit := Nat.isDigit_of_mem_toDigits (by decide) (by decide) (String.toList_ofList ▸ hd)
  simp only [Char.isDigit, Char.isLower, UInt32.le_iff_toNat_le, ge_iff_le, Bool.and_eq_true,
    decide_eq_true_eq, Bool.not_eq_true', Bool.and_eq_false_iff, decide_eq_false_iff_not,
    not_le, Char.toNat, Char.reduceVal, UInt32.reduceToNat] at hdigit ⊢
  omega

/-- A setting leaves `Object.prototype` as it was. -/
theorem Plain.set (h : Plain js st) {c : SetCall} (hc : c.sectionName.text ≠ "__proto__") :
    Plain js (st.setValueString c) where
  prototype := by
    obtain ⟨sections, hset, -⟩ := h.setValueString_eq hc
    rw [hset, h.prototype]
  proto := by
    obtain ⟨sections, hset, hother⟩ := h.setValueString_eq hc
    rw [hset, FiniteMap.get?_assoc, if_neg hc, hother _ hc, h.proto]
  upper name option v hv := by
    rw [h.options_setValueString hc] at hv
    by_cases hname : c.sectionName.text = name
    · rw [if_pos hname, FiniteMap.get?_assoc] at hv
      by_cases hoption : c.property = option
      · rw [← hoption, toUpperCase_property]
      · rw [if_neg hoption] at hv
        exact h.upper name option v hv
    · rw [if_neg hname] at hv
      exact h.upper name option v hv

end State

end GnunetWeb.Configuration
