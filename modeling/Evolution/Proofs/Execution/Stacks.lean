import Evolution.Execution.Stacks
import Mathlib.Data.List.Basic

/-! Typed stacks, on which every value lives on the stack of its kind, and what taking values and
putting them back does to all stacks at once. -/

namespace Evolution

namespace Value

variable {v : Value}

theorem eq_int (h : v.kind = "int") : ∃ n, v = int n := by
  cases v with
  | int n => exact ⟨n, rfl⟩
  | _ => simp [kind] at h

theorem eq_float (h : v.kind = "float") : ∃ x, v = float x := by
  cases v with
  | float x => exact ⟨x, rfl⟩
  | _ => simp [kind] at h

theorem eq_bool (h : v.kind = "bool") : ∃ b, v = bool b := by
  cases v with
  | bool b => exact ⟨b, rfl⟩
  | _ => simp [kind] at h

end Value

namespace Stacks

variable {s : Stacks}

/-- Every value lives on the stack of its kind. -/
def Typed (s : Stacks) : Prop := ∀ kind, ∀ v ∈ s.get kind, v.kind = kind

/-- All stacks are the same. -/
def Alike (s t : Stacks) : Prop := ∀ kind, s.get kind = t.get kind

theorem typed_empty : empty.Typed := by
  rintro kind v ⟨⟩

def pushAll (s : Stacks) (values : List Value) : Stacks := values.foldl push s

theorem get_push (s : Stacks) (v : Value) (kind : String) :
    (s.push v).get kind = if kind = v.kind then v :: s.get kind else s.get kind := by
  rw [push, get_set]
  split
  · next same => rw [same]
  · rfl

theorem Typed.of_alike {t : Stacks} (typed : s.Typed) (alike : t.Alike s) : t.Typed :=
  fun kind v member => typed kind v (alike kind ▸ member)

theorem Typed.set (typed : s.Typed) {kind : String} {stack : List Value}
    (kinds : ∀ v ∈ stack, v.kind = kind) : (s.set kind stack).Typed := by
  intro other v member
  rw [get_set] at member
  split at member
  · next same => exact (kinds v member).trans same.symm
  · exact typed other v member

theorem Typed.push (typed : s.Typed) (v : Value) : (s.push v).Typed :=
  typed.set (List.forall_mem_cons.mpr ⟨rfl, typed v.kind⟩)

theorem get_pushAll (s : Stacks) (values : List Value) (kind : String) :
    (s.pushAll values).get kind =
      (values.filter (kind = ·.kind)).reverse ++ s.get kind := by
  induction values generalizing s with
  | nil => rfl
  | cons v rest ih =>
    have step : s.pushAll (v :: rest) = (s.push v).pushAll rest := rfl
    rw [step, ih, get_push]
    by_cases same : kind = v.kind
    · simp [same]
    · simp [same]

theorem pop?_eq_some {kind : String} {top : Value} {rest : List Value}
    (found : s.get kind = top :: rest) : s.pop? kind = some (top, s.set kind rest) := by
  simp [pop?, found]

theorem popTwo?_eq_none {kind : String} (short : (s.get kind).length < 2) :
    s.popTwo? kind = none := by
  match found : s.get kind with
  | [] => simp [popTwo?, pop?, found]
  | [top] => simp [popTwo?, pop?, found, get_set]
  | _ :: _ :: _ =>
    rw [found] at short
    simp only [List.length_cons] at short
    omega

/-- The two values on top are taken, and the other stacks stay. -/
theorem popTwo?_eq_some {kind : String} {top under : Value} {rest : List Value}
    (found : s.get kind = top :: under :: rest) :
    ∃ left, s.popTwo? kind = some (under, top, left) ∧
      ∀ other, left.get other = if other = kind then rest else s.get other := by
  refine ⟨(s.set kind (under :: rest)).set kind rest, ?_, fun other => ?_⟩
  · simp [popTwo?, pop?, found, get_set]
  · rw [get_set, get_set]
    split <;> rfl

/-- What lies on a stack, an operand after the other, has the kind of the stack. -/
theorem Typed.kinds (typed : s.Typed) {kind : String} {args rest : List Value}
    (found : s.get kind = args.reverse ++ rest) : ∀ v ∈ args, v.kind = kind :=
  fun v member => typed kind v (by simp [found, member])

/-- Operands that go back in their order leave all stacks as they were. -/
theorem Typed.alike_pushAll (typed : s.Typed) {left : Stacks} {kind : String}
    {args rest : List Value} (found : s.get kind = args.reverse ++ rest)
    (others : ∀ other, left.get other = if other = kind then rest else s.get other) :
    (left.pushAll args).Alike s := by
  have kinds := typed.kinds found
  intro other
  rw [get_pushAll, others]
  by_cases same : other = kind
  · have all : args.filter (other = ·.kind) = args :=
      List.filter_eq_self.mpr fun v member => by simp [kinds v member, same]
    rw [all, if_pos same, same, found]
  · have none : args.filter (other = ·.kind) = [] :=
      List.filter_eq_nil_iff.mpr fun v member => by simp [kinds v member, same]
    rw [none, if_neg same, List.reverse_nil, List.nil_append]

end Stacks

end Evolution
