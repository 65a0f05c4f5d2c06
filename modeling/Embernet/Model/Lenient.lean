import Embernet.Lib.OpenLine
import Embernet.Model.Simulated
/-!
# Lenient readers — white space around a record

The JSON library skips the white space of JSON before a value and behind
it, and reads a record from nothing but an object or an array. A line
reader knows other white space, and takes less from the end of a line; so
what stands around a record on its line matters. `lenient` is the
simulated libraries with readers that do this.
-/

set_option autoImplicit false

namespace Embernet

namespace Simulated

/-- A text without the white space around it. -/
def strip (b : Bytes) : Bytes := (b.dropWhile isJsonSpace).rdropWhile isJsonSpace

theorem strip_append_left {s : Bytes} (hs : s.all isJsonSpace = true) (x : Bytes) :
    strip (s ++ x) = strip x := by
  rw [List.all_eq_true] at hs
  rw [strip, List.dropWhile_append_of_pos hs, strip]

theorem strip_append_right {s : Bytes} (hs : s.all isJsonSpace = true) (x : Bytes) :
    strip (x ++ s) = strip x := by
  induction s using List.reverseRecOn with
  | nil => rw [List.append_nil]
  | append_singleton s b ih =>
    rw [List.all_append, Bool.and_eq_true] at hs
    have hb : isJsonSpace b = true := by simpa using hs.2
    rw [← List.append_assoc, strip, List.dropWhile_append]
    by_cases hx : ((x ++ s).dropWhile isJsonSpace).isEmpty = true
    · have hnil : (x ++ s).dropWhile isJsonSpace = [] := List.isEmpty_iff.1 hx
      rw [if_pos hx, List.dropWhile_cons_of_pos hb, List.dropWhile_nil, ← ih hs.1, strip, hnil]
    · rw [if_neg hx, List.rdropWhile_concat_pos _ _ _ hb, ← ih hs.1, strip]

/-- What an object is written as has none around it. -/
theorem strip_obj (fields : List (String × Json)) :
    strip (Json.obj fields).compact = (Json.obj fields).compact := by
  obtain ⟨body, hbody⟩ := Json.compact_obj fields
  rw [hbody, strip, List.dropWhile_cons_of_neg (by decide), ← List.cons_append,
    List.rdropWhile_concat_neg _ _ _ (by decide)]

/-- And nothing else is left of a text that begins otherwise. -/
theorem strip_ne_obj {s : Bytes} {b : UInt8} (hs : s.all isJsonSpace = true)
    (hb : isJsonSpace b = false) (hne : b ≠ 0x7b) (x : Bytes) (fields : List (String × Json)) :
    (Json.obj fields).compact ≠ strip (s ++ b :: x) := by
  obtain ⟨body, hbody⟩ := Json.compact_obj fields
  rw [hbody, strip_append_left hs, strip, List.dropWhile_cons_of_neg (by simp [hb])]
  intro heq
  have hpre : (b :: x).rdropWhile isJsonSpace <+: b :: x := List.rdropWhile_prefix _ _
  rw [← heq, List.cons_prefix_cons] at hpre
  exact hne hpre.1.symm

/-- The record a text was written from, white space aside. -/
noncomputable def readStripped {α : Type} (toJson : α → Json) (b : Bytes) : Option α :=
  readBack toJson (strip b)

theorem readStripped_compact {α : Type} {toJson : α → Json} {fields : α → List (String × Json)}
    (hobj : ∀ a, toJson a = .obj (fields a)) (hinj : Function.Injective toJson) (a : α) :
    readStripped toJson (toJson a).compact = some a := by
  have hstrip : strip (toJson a).compact = (toJson a).compact := by rw [hobj, strip_obj]
  rw [readStripped, hstrip]
  exact readBack_compact hinj a

theorem skipsSpace_readStripped {α : Type} {toJson : α → Json}
    {fields : α → List (String × Json)} (hobj : ∀ a, toJson a = .obj (fields a)) :
    SkipsSpace (readStripped toJson) where
  leading s x a hs h := by rwa [readStripped, strip_append_left hs]
  trailing x s a hs h := by rwa [readStripped, strip_append_right hs]
  other s b x hs hb hne _ := by
    have hnone : ¬ ∃ a, (toJson a).compact = strip (s ++ b :: x) := by
      rintro ⟨a, ha⟩
      rw [hobj] at ha
      exact strip_ne_obj hs hb hne x _ ha
    rw [readStripped, readBack, dif_neg hnone]

end Simulated

open Simulated in
/-- The simulated libraries, with readers that skip white space. -/
@[reducible] noncomputable def lenient : Primitives :=
  { simulated with
    readEnvelope := readStripped Envelope.toJson
    readEnvelope_compact := readStripped_compact (fun _ => rfl) envelope_toJson_injective
    readPolicyEvent := readStripped PolicyEvent.toJson
    readPolicyEvent_compact := readStripped_compact (fun _ => rfl) policyEvent_toJson_injective
    readModerationEvent := readStripped ModerationEvent.toJson
    readModerationEvent_compact :=
      readStripped_compact (fun _ => rfl) moderationEvent_toJson_injective }

end Embernet
