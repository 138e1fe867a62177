import CertAuthority.Error
import CertAuthority.Proofs.Json.Members

/-!
# What was read from a list or a record

A reader of fields goes from one name to the next, and a value that it refuses does not stop it. So
each field has its own condition, and the record is read if all of them hold.

* `Json.mapM_eq_ok_iff` : a list whose items are read as just what was written of them;
* `Json.IsField` : the value of a field, in what stands under its name;
* `Json.Accepts` : a reader of fields comes to a value without a refusal if and only if the value has
  a property. The rules follow the ways in which readers are put together;
* `Json.asRecord_eq_ok_iff` : such a reader reads an object as the values with that property.
-/

namespace CertAuthority.Json

variable {α β : Type} {members : List (String × Json)}

theorem mapM_eq_ok_iff {γ ε : Type} {read : γ → Except ε α} {write : α → γ}
    (h : ∀ c a, read c = .ok a ↔ write a = c) {cs : List γ} {as : List α} :
    cs.mapM read = .ok as ↔ as.map write = cs := by
  constructor
  · intro hread
    have hmap := (Outcome.of_mapM (P := fun _ => True) (g := write) (k := id)
      (fun c _ a ha => ⟨trivial, (h c a).1 ha⟩) hread).2
    rw [hmap, List.map_id]
  · rintro rfl
    exact mapM_write fun a _ => (h (write a) a).2 rfl

/-- The value of a field, from what stands there. -/
def IsField (value : Reader α) (default : α) : Option Json → α → Prop
  | none, a => a = default
  | some j, a => value j = .ok a

/-- Over the members the reader comes to a value, whether or not something was refused before it.
Nothing has been refused afterwards for just the values `P`. -/
def Accepts (members : List (String × Json)) (x : FieldReader α) (P : α → Prop) : Prop :=
  ∀ refused, ∃ a refused', x.run ⟨.named members, refused⟩ = (a, ⟨.named members, refused'⟩) ∧
    ∀ b, refused' = none ∧ a = b ↔ refused = none ∧ P b

theorem asRecord_eq_ok_iff {x : FieldReader α} {P : α → Prop} (h : Accepts members x P) (a : α) :
    asRecord x (.obj members) = .ok a ↔ P a := by
  obtain ⟨b, refused, hrun, hP⟩ := h none
  have hfinish : Reading.finish b ⟨.named members, refused⟩ = .ok a ↔ refused = none ∧ b = a := by
    cases refused <;> simp [Reading.finish]
  rw [asRecord, hrun, hfinish, hP, eq_self_iff_true, true_and]

namespace Accepts

variable {x : FieldReader α} {P Q : α → Prop}

theorem congr (hx : Accepts members x P) (h : ∀ a, P a ↔ Q a) : Accepts members x Q := by
  intro refused
  obtain ⟨a, refused', hrun, hP⟩ := hx refused
  exact ⟨a, refused', hrun, fun b => by rw [hP, h]⟩

theorem pure (a : α) : Accepts members (Pure.pure a) (a = ·) :=
  fun refused => ⟨a, refused, rfl, fun _ => Iff.rfl⟩

theorem bind {f : α → FieldReader β} {R : α → β → Prop} (hx : Accepts members x P)
    (hf : ∀ a, Accepts members (f a) (R a)) :
    Accepts members (x >>= f) fun b => ∃ a, P a ∧ R a b := by
  intro refused
  obtain ⟨a, between, hrun, hP⟩ := hx refused
  obtain ⟨b, refused', hrun', hR⟩ := hf a between
  refine ⟨b, refused', by rw [StateT.run_bind, hrun]; exact hrun', fun c => ?_⟩
  rw [hR]
  constructor
  · rintro ⟨hnone, hc⟩
    obtain ⟨hfirst, ha⟩ := (hP a).1 ⟨hnone, rfl⟩
    exact ⟨hfirst, a, ha, hc⟩
  · rintro ⟨hfirst, a', ha, hc⟩
    obtain ⟨hnone, rfl⟩ := (hP a').2 ⟨hfirst, ha⟩
    exact ⟨hnone, hc⟩

/-- What stands under a name is known. -/
theorem nextField_bind {name : String} {f : Option Json → FieldReader α}
    (h : Accepts members (f (members.lookup name)) P) :
    Accepts members (nextField name >>= f) P :=
  h

theorem refuse (name : String) (why : Refusal) :
    Accepts members (modify (·.refuse name why)) fun _ => False := by
  intro refused
  have hrefuse : ∃ first, (Reading.mk (.named members) refused).refuse name why =
      ⟨.named members, some first⟩ := by
    cases refused with
    | none => exact ⟨_, rfl⟩
    | some first =>
      simp only [Reading.refuse]
      split <;> exact ⟨_, rfl⟩
  obtain ⟨first, hrefuse⟩ := hrefuse
  exact ⟨(), some first, congrArg (Prod.mk ()) hrefuse, fun _ => by simp⟩

theorem fieldD (name : String) (value : Reader α) (default : α) :
    Accepts members (Json.fieldD name value default)
      (IsField value default (members.lookup name)) := by
  refine nextField_bind ?_
  cases members.lookup name with
  | none => exact (pure default).congr fun a => eq_comm
  | some j =>
    have hfield (a : α) : IsField value default (some j) a ↔ value j = .ok a := Iff.rfl
    dsimp only
    cases hj : value j with
    | ok a => exact (pure a).congr fun b => by rw [hfield, hj, Except.ok.injEq]
    | error why =>
      refine ((refuse name why).bind fun _ => pure default).congr fun a => ?_
      rw [hfield, hj]
      simp

end Accepts
end CertAuthority.Json
