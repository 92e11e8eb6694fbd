import Mathlib.Data.List.Basic

namespace Collections

-- A computation that leaves a trace and may raise.
structure Traced (ι α : Type) where
  trace : List ι
  result : Option α

namespace Traced

variable {ι α β : Type}

def pure (a : α) : Traced ι α := ⟨[], some a⟩

def raise : Traced ι α := ⟨[], none⟩

def note (i : ι) : Traced ι Unit := ⟨[i], some ()⟩

def lift (x : Option α) : Traced ι α := ⟨[], x⟩

def bind (x : Traced ι α) (f : α → Traced ι β) : Traced ι β :=
  match x.result with
  | some a => ⟨x.trace ++ (f a).trace, (f a).result⟩
  | none => ⟨x.trace, none⟩

instance : Monad (Traced ι) where
  pure := pure
  bind := bind

-- `try … except`, whatever is raised.
def except (x handler : Traced ι α) : Traced ι α :=
  match x.result with
  | some a => ⟨x.trace, some a⟩
  | none => ⟨x.trace ++ handler.trace, handler.result⟩

def All (P : ι → Prop) (x : Traced ι α) : Prop := ∀ i ∈ x.trace, P i

variable {P : ι → Prop} {x handler : Traced ι α} {f : α → Traced ι β}

theorem all_pure (a : α) : All P (Pure.pure a : Traced ι α) := fun _ h => absurd h List.not_mem_nil

theorem all_raise : All P (raise : Traced ι α) := fun _ h => absurd h List.not_mem_nil

theorem all_lift (y : Option α) : All P (lift y) := fun _ h => absurd h List.not_mem_nil

theorem all_note {i : ι} (h : P i) : All P (note i) := fun _ hj => List.mem_singleton.mp hj ▸ h

theorem all_bind (hx : All P x) (hf : ∀ a, x.result = some a → All P (f a)) : All P (x >>= f) := by
  change All P (bind x f)
  rw [bind]
  cases hresult : x.result with
  | none => exact hx
  | some a => exact fun i hi => (List.mem_append.mp hi).elim (hx i) (hf a hresult i)

theorem all_except (hx : All P x) (hhandler : All P handler) : All P (except x handler) := by
  rw [except]
  cases x.result with
  | none => exact fun i hi => (List.mem_append.mp hi).elim (hx i) (hhandler i)
  | some a => exact hx

theorem result_bind {b : β} (h : (x >>= f).result = some b) :
    ∃ a, x.result = some a ∧ (f a).result = some b := by
  change (bind x f).result = some b at h
  rw [bind] at h
  cases hresult : x.result with
  | none =>
    rw [hresult] at h
    cases h
  | some a =>
    rw [hresult] at h
    exact ⟨a, rfl, h⟩

end Traced

end Collections
