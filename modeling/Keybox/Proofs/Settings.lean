import Keybox.Failure
import Keybox.Proofs.Except

/-!
# The first unusable field is reported

An object gives settings when each of the five fields that settings are read from is absent or
holds a value of its type. Null stands for an absent text in the two fields that may do without one,
and for nothing in the others; no number stands for a boolean.

What a field may hold is said here field by field, apart from the order in which the fields are
read, and so are the settings that an object stands for.

**Results.** A value gives settings exactly when it is an object in which every field is usable, and
these are the settings it stands for. Otherwise the error names the first field that is not usable,
with its value, whatever the fields after it hold. Nothing else in the object has a part in it.
-/

namespace Keybox

namespace Members

/-- With distinct names a member is found by its name. -/
theorem find?_eq_some_iff_mem
    {members : Members}
    (hnodup : (members.map Prod.fst).Nodup)
    {name : Text}
    {v : Json} :
    members.find? name = some v ↔ (name, v) ∈ members := by
  induction members with
  | nil =>
      simp [find?]
  | cons m rest ih =>
      obtain ⟨n, w⟩ := m
      obtain ⟨hnew, hrest⟩ := List.nodup_cons.mp hnodup
      rw [find?, List.mem_cons]
      split
      · next hname =>
        subst hname
        have hnotMem : (n, v) ∉ rest := fun hmem => hnew (List.mem_map.mpr ⟨_, hmem, rfl⟩)
        simp [hnotMem, eq_comm]
      · next hname =>
        have hne : (name, v) ≠ (n, w) := fun heq => hname (congrArg Prod.fst heq).symm
        rw [ih hrest, or_iff_right hne]

end Members

namespace Settings

/-- The members of an object that settings are read from. -/
inductive Field where
  | baseDir
  | logFile
  | network
  | atomicWrite
  | createDirs
deriving DecidableEq

namespace Field

/-- The name of a field. -/
def name : Field → Text
  | baseDir => lit "base_dir"
  | logFile => lit "log_file"
  | network => lit "network_id"
  | atomicWrite => lit "atomic_write"
  | createDirs => lit "create_dirs"

/-- The fields in the order in which they are read. -/
def order : List Field :=
  [baseDir, logFile, network, atomicWrite, createDirs]

/-- The fields that are read before one. -/
def earlier (field : Field) : List Field :=
  order.takeWhile (· ≠ field)

/-- The values that a field may hold. -/
def Accepts : Field → Json → Prop
  | baseDir, v | logFile, v => v = .null ∨ ∃ t, v = .text t
  | network, v => ∃ t, t ≠ [] ∧ v = .text t
  | atomicWrite, v | createDirs, v => ∃ b, v = .bool b

/-- What the message about a field asks for. -/
def wanted : Field → Text
  | baseDir | logFile => lit "a string"
  | network => lit "a non-empty string"
  | atomicWrite | createDirs => lit "true/false"

/-- The fault of a field that holds a value it may not hold. -/
def fault : Field → Json → Fault
  | network, v => .notNetwork v
  | baseDir, v => .notText baseDir.name v
  | logFile, v => .notText logFile.name v
  | atomicWrite, v => .notFlag atomicWrite.name v
  | createDirs, v => .notFlag createDirs.name v

/-- The message about a field names it, says what it asks for and shows its value. -/
theorem message_fault
    (field : Field)
    (found : Json) :
    (field.fault found).message =
      lit "Config '" ++ field.name ++ lit "' must be " ++ field.wanted ++ lit ", got " ++
        found.shown := by
  cases field <;> simp [fault, Fault.message, name, wanted, lit]

theorem eq_or_mem_earlier
    (field other : Field) :
    field = other ∨ field ∈ other.earlier ∨ other ∈ field.earlier := by
  cases field <;> cases other <;> decide

end Field

/-- A field is absent, or holds a value that it may hold. -/
def Usable
    (members : Members)
    (field : Field) : Prop :=
  ∀ v, members.find? field.name = some v → field.Accepts v

/-- The first unusable field, with the value it holds. -/
structure FirstUnusable
    (members : Members)
    (field : Field)
    (found : Json) : Prop where
  find?_eq : members.find? field.name = some found
  not_accepts : ¬ field.Accepts found
  usable : ∀ before ∈ field.earlier, Usable members before

/-- The text that a member holds, if it is there and holds one. -/
def textOf : Option Json → Option Text
  | some (.text t) => some t
  | _ => none

/-- The boolean that a member holds, if it is there and holds one. -/
def boolOf : Option Json → Option Bool
  | some (.bool b) => some b
  | _ => none

/-- The settings that an object stands for. -/
def described (members : Members) : Settings where
  baseDir := textOf (members.find? Field.baseDir.name)
  network := (textOf (members.find? Field.network.name)).getD (lit "testnet")
  atomicWrite := (boolOf (members.find? Field.atomicWrite.name)).getD false
  createDirs := (boolOf (members.find? Field.createDirs.name)).getD false
  logFile := textOf (members.find? Field.logFile.name)

variable
  {members others : Members}
  {field other : Field}
  {found found' : Json}

theorem FirstUnusable.not_usable
    (h : FirstUnusable members field found) :
    ¬ Usable members field :=
  fun husable => h.not_accepts (husable found h.find?_eq)

theorem FirstUnusable.unique
    (h : FirstUnusable members field found)
    (hother : FirstUnusable members other found') :
    other = field ∧ found' = found := by
  rcases other.eq_or_mem_earlier field with rfl | hmem | hmem
  · exact ⟨rfl, Option.some.inj (hother.find?_eq.symm.trans h.find?_eq)⟩
  · exact absurd (h.usable other hmem) hother.not_usable
  · exact absurd (hother.usable field hmem) h.not_usable

/-! ## Reading one field -/

section Fields

variable
  {name : Text}
  {f : Fault}

theorem optionalText_eq_ok_iff
    {t? : Option Text} :
    optionalText members name = .ok t? ↔
      (∀ v, members.find? name = some v → v = .null ∨ ∃ t, v = .text t) ∧
        t? = textOf (members.find? name) := by
  rw [optionalText]
  rcases members.find? name with _ | v
  · simp [textOf, eq_comm]
  · cases v <;> simp [textOf, eq_comm]

theorem optionalText_eq_error_iff :
    optionalText members name = .error f ↔
      ∃ v, members.find? name = some v ∧ ¬ (v = .null ∨ ∃ t, v = .text t) ∧
        f = .notText name v := by
  rw [optionalText]
  rcases members.find? name with _ | v
  · simp
  · cases v <;> simp [eq_comm]

theorem networkText_eq_ok_iff
    {t : Text} :
    networkText members = .ok t ↔
      (∀ v, members.find? (lit "network_id") = some v → ∃ t, t ≠ [] ∧ v = .text t) ∧
        t = (textOf (members.find? (lit "network_id"))).getD (lit "testnet") := by
  rw [networkText]
  rcases members.find? (lit "network_id") with _ | v
  · simp [textOf, default, eq_comm]
  · cases v with
    | text u =>
        by_cases hempty : u = []
        · simp [hempty]
        · simp [hempty, textOf, eq_comm]
    | _ =>
        simp

theorem networkText_eq_error_iff :
    networkText members = .error f ↔
      ∃ v, members.find? (lit "network_id") = some v ∧ ¬ (∃ t, t ≠ [] ∧ v = .text t) ∧
        f = .notNetwork v := by
  rw [networkText]
  rcases members.find? (lit "network_id") with _ | v
  · simp
  · cases v with
    | text u =>
        by_cases hempty : u = []
        · simp [hempty, eq_comm]
        · refine iff_of_false (by simp [hempty]) ?_
          rintro ⟨v, hv, hnot, -⟩
          obtain rfl := Option.some.inj hv
          exact hnot ⟨u, hempty, rfl⟩
    | _ =>
        simp [eq_comm]

theorem flag_eq_ok_iff
    {b : Bool} :
    flag members name = .ok b ↔
      (∀ v, members.find? name = some v → ∃ b, v = .bool b) ∧
        b = (boolOf (members.find? name)).getD false := by
  rw [flag]
  rcases members.find? name with _ | v
  · simp [boolOf, eq_comm]
  · cases v <;> simp [boolOf, eq_comm]

theorem flag_eq_error_iff :
    flag members name = .error f ↔
      ∃ v, members.find? name = some v ∧ ¬ (∃ b, v = .bool b) ∧ f = .notFlag name v := by
  rw [flag]
  rcases members.find? name with _ | v
  · simp
  · cases v <;> simp [eq_comm]

end Fields

/-! ## Reading all fields -/

theorem ofMembers_eq_ok_iff
    {s : Settings} :
    ofMembers members = .ok s ↔ (∀ field, Usable members field) ∧ s = described members := by
  simp only [ofMembers, bind_eq_ok_iff, optionalText_eq_ok_iff, networkText_eq_ok_iff,
    flag_eq_ok_iff]
  constructor
  · rintro ⟨_, ⟨hbase, rfl⟩, _, ⟨hlog, rfl⟩, _, ⟨hnetwork, rfl⟩, _, ⟨hatomic, rfl⟩, _,
      ⟨hcreate, rfl⟩, hs⟩
    refine ⟨?_, (Except.ok.inj hs).symm⟩
    intro field
    cases field with
    | baseDir => exact hbase
    | logFile => exact hlog
    | network => exact hnetwork
    | atomicWrite => exact hatomic
    | createDirs => exact hcreate
  · rintro ⟨husable, rfl⟩
    exact ⟨_, ⟨husable .baseDir, rfl⟩, _, ⟨husable .logFile, rfl⟩, _, ⟨husable .network, rfl⟩, _,
      ⟨husable .atomicWrite, rfl⟩, _, ⟨husable .createDirs, rfl⟩, rfl⟩

/-- An object that gives no settings has a first unusable field, and the fault is that field's. -/
theorem firstUnusable_of_ofMembers_eq_error
    {f : Fault}
    (h : ofMembers members = .error f) :
    ∃ field found, FirstUnusable members field found ∧ f = field.fault found := by
  simp only [ofMembers, bind_eq_error_iff, optionalText_eq_ok_iff, optionalText_eq_error_iff,
    networkText_eq_ok_iff, networkText_eq_error_iff, flag_eq_ok_iff, flag_eq_error_iff] at h
  -- One case for each field that can be the first; those read before it go into the next case.
  rcases h with ⟨v, hv, hnot, rfl⟩ | ⟨_, ⟨hbase, -⟩, h⟩
  · exact ⟨.baseDir, v, ⟨hv, hnot, by simp [Field.earlier, Field.order]⟩, rfl⟩
  have hfirst : Usable members .baseDir := hbase
  rcases h with ⟨v, hv, hnot, rfl⟩ | ⟨_, ⟨hlog, -⟩, h⟩
  · exact ⟨.logFile, v, ⟨hv, hnot, by simpa [Field.earlier, Field.order] using hfirst⟩, rfl⟩
  have hsecond : Usable members .logFile := hlog
  rcases h with ⟨v, hv, hnot, rfl⟩ | ⟨_, ⟨hnetwork, -⟩, h⟩
  · exact ⟨.network, v,
      ⟨hv, hnot, by simpa [Field.earlier, Field.order] using ⟨hfirst, hsecond⟩⟩, rfl⟩
  have hthird : Usable members .network := hnetwork
  rcases h with ⟨v, hv, hnot, rfl⟩ | ⟨_, ⟨hatomic, -⟩, h⟩
  · exact ⟨.atomicWrite, v,
      ⟨hv, hnot, by simpa [Field.earlier, Field.order] using ⟨hfirst, hsecond, hthird⟩⟩, rfl⟩
  have hfourth : Usable members .atomicWrite := hatomic
  rcases h with ⟨v, hv, hnot, rfl⟩ | ⟨_, -, ⟨⟩⟩
  exact ⟨.createDirs, v,
    ⟨hv, hnot, by simpa [Field.earlier, Field.order] using ⟨hfirst, hsecond, hthird, hfourth⟩⟩, rfl⟩

theorem ofMembers_eq_error_iff
    {f : Fault} :
    ofMembers members = .error f ↔
      ∃ field found, FirstUnusable members field found ∧ f = field.fault found := by
  constructor
  · exact firstUnusable_of_ofMembers_eq_error
  · rintro ⟨field, found, hfirst, rfl⟩
    cases hread : ofMembers members with
    | ok s =>
        exact absurd ((ofMembers_eq_ok_iff.mp hread).1 field) hfirst.not_usable
    | error f =>
        obtain ⟨other, found', hother, rfl⟩ := firstUnusable_of_ofMembers_eq_error hread
        obtain ⟨rfl, rfl⟩ := hfirst.unique hother
        rfl

/-- Objects in which every field has the same member give the same. -/
theorem ofMembers_congr
    (h : ∀ field : Field, others.find? field.name = members.find? field.name) :
    ofMembers others = ofMembers members := by
  have hbase : others.find? (lit "base_dir") = members.find? (lit "base_dir") := h .baseDir
  have hlog : others.find? (lit "log_file") = members.find? (lit "log_file") := h .logFile
  have hnetwork : others.find? (lit "network_id") = members.find? (lit "network_id") := h .network
  have hatomic : others.find? (lit "atomic_write") = members.find? (lit "atomic_write") :=
    h .atomicWrite
  have hcreate : others.find? (lit "create_dirs") = members.find? (lit "create_dirs") :=
    h .createDirs
  simp only [ofMembers, optionalText, networkText, flag, hbase, hlog, hnetwork, hatomic, hcreate]

/-- **The first unusable field is reported.**

* A value gives settings exactly when it is an object in which every field is usable, and the
  settings are those that the object stands for.
* A value gives no settings exactly when it is no object or has a first unusable field, and the
  fault is about that: its message names the field, says what the field may hold and shows the value
  found.
* All of these are faults of a value.
* Objects with distinct names that have the same members among the fields give the same, whatever
  other members there are and in whatever order they stand. -/
theorem first_unusable_field_is_reported :
    (∀ v s, ofJson v = .ok s ↔
        ∃ members, v = .object members ∧ (∀ field, Usable members field) ∧
          s = described members) ∧
      (∀ v f, ofJson v = .error f ↔
        (∀ members, v ≠ .object members) ∧ f = .notObject ∨
          ∃ members field found, v = .object members ∧ FirstUnusable members field found ∧
            f = field.fault found) ∧
      Fault.notObject.message = lit "Config must be a JSON object" ∧
      (∀ (field : Field) found, (field.fault found).message =
        lit "Config '" ++ field.name ++ lit "' must be " ++ field.wanted ++ lit ", got " ++
          found.shown) ∧
      (∀ f, (Failure.settings (.invalid f)).family = .value) ∧
      ∀ members others : Members, (members.map Prod.fst).Nodup → (others.map Prod.fst).Nodup →
        (∀ (field : Field) v, (field.name, v) ∈ others ↔ (field.name, v) ∈ members) →
          ofJson (.object others) = ofJson (.object members) := by
  refine ⟨?_, ?_, rfl, Field.message_fault, fun _ => rfl, ?_⟩
  · intro v s
    cases v with
    | object members =>
        simp [ofJson, ofMembers_eq_ok_iff]
    | _ =>
        simp [ofJson]
  · intro v f
    cases v with
    | object members =>
        simp [ofJson, ofMembers_eq_error_iff]
    | _ =>
        simp [ofJson, eq_comm]
  · intro members others hmembers hothers hsame
    refine ofMembers_congr fun field => Option.ext fun v => ?_
    rw [Members.find?_eq_some_iff_mem hothers, Members.find?_eq_some_iff_mem hmembers, hsame]

/-- Of two unusable fields the one that is read first is reported, wherever it stands. -/
example :
    ofJson (.object [(lit "create_dirs", .int 0), (lit "network_id", .null),
        (lit "log_file", .null)]) =
      .error (.notNetwork .null) :=
  rfl

end Settings

end Keybox
