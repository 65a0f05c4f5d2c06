import Embernet.Lib.Json
/-!
# Decoding — the members of an object, by name

What a derived deserialiser makes of an object: each member is looked up
by its name, wherever it stands; one that is named twice is an error; one
that is missing is an error, or has a default; and members nobody asks
for are passed over.
-/

namespace Embernet

namespace Json

variable {α : Type}

/-- The member of that name, if there is one; none at all where there are
two. -/
def field (fields : List (String × Json)) (name : String) : Option (Option Json) :=
  match fields.filter (·.1 == name) with
  | [] => some none
  | [(_, value)] => some (some value)
  | _ => none

/-- A member that must be there. -/
def required (fields : List (String × Json)) (name : String) (decode : Json → Option α) :
    Option α := do
  let value ← field fields name
  decode (← value)

/-- A member that has a default. -/
def defaulted (fields : List (String × Json)) (name : String) (decode : Json → Option α)
    (default : α) : Option α := do
  match ← field fields name with
  | none => pure default
  | some value => decode value

/-- The members of an object. -/
def asObj : Json → Option (List (String × Json))
  | obj fields => some fields
  | _ => none

/-- The text of a string. -/
def asStr : Json → Option String
  | str s => some s
  | _ => none

/-- An `Option<String>`. -/
def asOptStr : Json → Option (Option String)
  | null => some none
  | value => (asStr value).map some

/-- An array of strings. -/
def asStrings : Json → Option (List String)
  | arr values => values.mapM asStr
  | _ => none

/-- A list, each element of which must read. -/
def asArr (decode : Json → Option α) : Json → Option (List α)
  | arr values => values.mapM decode
  | _ => none

/-- A number between two bounds. -/
def asInt (low high : ℤ) : Json → Option ℤ
  | num n => if low ≤ n ∧ n ≤ high then some n else none
  | _ => none

@[simp] theorem asObj_obj (fields : List (String × Json)) : asObj (obj fields) = some fields := rfl

@[simp] theorem asStr_str (s : String) : asStr (str s) = some s := rfl

@[simp] theorem asOptStr_opt (s : Option String) : asOptStr (opt str s) = some s := by
  cases s <;> rfl

@[simp] theorem asStrings_arr (ss : List String) : asStrings (arr (ss.map str)) = some ss := by
  rw [asStrings]
  induction ss with
  | nil => rfl
  | cons s ss ih =>
    rw [List.map_cons, List.mapM_cons, ih]
    rfl

/-- **A list of what reads back reads back.** -/
theorem asArr_map {decode : Json → Option α} {encode : α → Json} {as : List α}
    (h : ∀ a ∈ as, decode (encode a) = some a) : asArr decode (arr (as.map encode)) = some as := by
  rw [asArr]
  induction as with
  | nil => rfl
  | cons a as ih =>
    have hrest := ih fun a' ha' => h a' (List.mem_cons_of_mem _ ha')
    rw [List.map_cons, List.mapM_cons, h a List.mem_cons_self, hrest]
    rfl

/-- A list of what does not read reads as the empty list only. -/
theorem asArr_map_none {β : Type} {decode : Json → Option α} {encode : β → Json}
    (h : ∀ b, decode (encode b) = none) (bs : List β) :
    asArr decode (arr (bs.map encode)) = if bs = [] then some [] else none := by
  cases bs with
  | nil => rfl
  | cons b bs =>
    rw [asArr, List.map_cons, List.mapM_cons, h b]
    rfl

theorem asInt_num {low high n : ℤ} (hlow : low ≤ n) (hhigh : n ≤ high) :
    asInt low high (num n) = some n := by
  rw [asInt, if_pos ⟨hlow, hhigh⟩]

end Json

end Embernet
