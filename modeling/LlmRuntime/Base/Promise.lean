import Mathlib.Tactic.Common

/-!
# Promises

A promise is settled once, and what comes later does not change it. `All` is what becomes of
`Promise.all([first, second])`: the result is fulfilled when both are, and rejected as soon as one is.
-/

inductive Promise (α : Type*) where
  | pending
  | fulfilled (value : α)
  | rejected (error : String)
  deriving DecidableEq, Repr

namespace Promise

variable {α β : Type*} {p q : Promise α} {r : Promise β} {a : α} {b : β} {error : String}

/-- `q` settles `p`, unless something else has. -/
def settle : Promise α → Promise α → Promise α
  | .pending, q => q
  | .fulfilled a, _ => .fulfilled a
  | .rejected error, _ => .rejected error

/-- `.then(f)` -/
def map (f : α → β) : Promise α → Promise β
  | .pending => .pending
  | .fulfilled a => .fulfilled (f a)
  | .rejected error => .rejected error

/-- `.catch(() => a)` -/
def recover (a : α) : Promise α → Promise α
  | .rejected _ => .fulfilled a
  | p => p

/-- What two promises come to, the one or the other of which has just been settled. -/
def both : Promise α → Promise β → Promise (α × β)
  | .rejected error, _ => .rejected error
  | _, .rejected error => .rejected error
  | .fulfilled a, .fulfilled b => .fulfilled (a, b)
  | .pending, .fulfilled _ => .pending
  | _, .pending => .pending

@[simp] theorem pending_settle (q : Promise α) : settle .pending q = q := rfl

@[simp] theorem fulfilled_settle (a : α) (q : Promise α) : settle (.fulfilled a) q = .fulfilled a := rfl

@[simp] theorem rejected_settle (error : String) (q : Promise α) :
    settle (.rejected error) q = .rejected error := rfl

@[simp] theorem map_eq_pending {f : α → β} : p.map f = .pending ↔ p = .pending := by
  cases p <;> simp [map]

@[simp] theorem map_eq_fulfilled {f : α → β} : p.map f = .fulfilled b ↔ ∃ a, p = .fulfilled a ∧ f a = b := by
  cases p <;> simp [map]

@[simp] theorem map_eq_rejected {f : α → β} : p.map f = .rejected error ↔ p = .rejected error := by
  cases p <;> simp [map]

@[simp] theorem recover_eq_pending : p.recover a = .pending ↔ p = .pending := by
  cases p <;> simp [recover]

theorem recover_ne_rejected : p.recover a ≠ .rejected error := by
  cases p <;> simp [recover]

theorem recover_eq_fulfilled {a' : α} :
    p.recover a = .fulfilled a' ↔ p = .fulfilled a' ∨ a = a' ∧ ∃ error, p = .rejected error := by
  cases p <;> simp [recover]

theorem both_eq_fulfilled : both p r = .fulfilled (a, b) ↔ p = .fulfilled a ∧ r = .fulfilled b := by
  cases p <;> cases r <;> simp [both]

theorem eq_rejected_of_both (h : both p r = .rejected error) : p = .rejected error ∨ r = .rejected error := by
  cases p <;> cases r <;> simp_all [both]

theorem ne_rejected_of_both (h : both p r = .pending) : p ≠ .rejected error ∧ r ≠ .rejected error := by
  cases p <;> cases r <;> simp_all [both]

theorem settle_eq_self (h : p ≠ .pending) : p.settle q = p := by
  cases p with
  | pending => exact absurd rfl h
  | fulfilled | rejected => rfl

/-! ### Two promises -/

structure All (α β : Type*) where
  first : Promise α
  second : Promise β
  result : Promise (α × β)
  fulfilled_iff : ∀ a b, result = .fulfilled (a, b) ↔ first = .fulfilled a ∧ second = .fulfilled b
  of_rejected : ∀ error, result = .rejected error → first = .rejected error ∨ second = .rejected error
  of_pending : result = .pending → ∀ error, first ≠ .rejected error ∧ second ≠ .rejected error

namespace All

theorem start_fulfilled_iff (a : α) (b : β) : (Promise.pending : Promise (α × β)) = .fulfilled (a, b) ↔
    (Promise.pending : Promise α) = .fulfilled a ∧ (Promise.pending : Promise β) = .fulfilled b := by
  simp

theorem start_of_rejected (error : String) (h : (Promise.pending : Promise (α × β)) = .rejected error) :
    (Promise.pending : Promise α) = .rejected error ∨ (Promise.pending : Promise β) = .rejected error := by
  cases h

theorem start_of_pending (_ : (Promise.pending : Promise (α × β)) = .pending) (error : String) :
    (Promise.pending : Promise α) ≠ .rejected error ∧ (Promise.pending : Promise β) ≠ .rejected error := by
  simp

def start : All α β where
  first := .pending
  second := .pending
  result := .pending
  fulfilled_iff := start_fulfilled_iff
  of_rejected := start_of_rejected
  of_pending := start_of_pending

variable (all : All α β)

/-- A result that is settled stays right when its promises are settled further. -/
theorem settled_fulfilled_iff (p' : Promise α) (r' : Promise β) (a : α) (b : β) :
    all.result.settle (both (all.first.settle p') (all.second.settle r')) = .fulfilled (a, b) ↔
      all.first.settle p' = .fulfilled a ∧ all.second.settle r' = .fulfilled b := by
  cases hresult : all.result with
  | pending => rw [pending_settle, both_eq_fulfilled]
  | fulfilled value =>
      obtain ⟨hfirst, hsecond⟩ := (all.fulfilled_iff value.1 value.2).mp hresult
      rw [hfirst, hsecond, fulfilled_settle, fulfilled_settle, fulfilled_settle]
      simp [Prod.ext_iff]
  | rejected error =>
      rw [rejected_settle]
      rcases all.of_rejected error hresult with h | h
      · simp [h]
      · simp [h]

theorem settled_of_rejected (p' : Promise α) (r' : Promise β) (error : String)
    (h : all.result.settle (both (all.first.settle p') (all.second.settle r')) = .rejected error) :
    all.first.settle p' = .rejected error ∨ all.second.settle r' = .rejected error := by
  cases hresult : all.result with
  | pending =>
      rw [hresult, pending_settle] at h
      exact eq_rejected_of_both h
  | fulfilled value =>
      rw [hresult] at h
      cases h
  | rejected error' =>
      rw [hresult, rejected_settle] at h
      cases h
      apply (all.of_rejected error hresult).imp
      · intro hfirst
        rw [hfirst, rejected_settle]
      · intro hsecond
        rw [hsecond, rejected_settle]

theorem settled_of_pending (p' : Promise α) (r' : Promise β)
    (h : all.result.settle (both (all.first.settle p') (all.second.settle r')) = .pending) (error : String) :
    all.first.settle p' ≠ .rejected error ∧ all.second.settle r' ≠ .rejected error := by
  cases hresult : all.result with
  | pending =>
      rw [hresult, pending_settle] at h
      exact ne_rejected_of_both h
  | fulfilled | rejected =>
      rw [hresult] at h
      cases h

/-- Both promises are told something; `.pending` says nothing. -/
def settle (p' : Promise α) (r' : Promise β) : All α β where
  first := all.first.settle p'
  second := all.second.settle r'
  result := all.result.settle (both (all.first.settle p') (all.second.settle r'))
  fulfilled_iff := all.settled_fulfilled_iff p' r'
  of_rejected := all.settled_of_rejected p' r'
  of_pending := all.settled_of_pending p' r'

def settleFirst (p' : Promise α) : All α β := all.settle p' .pending

def settleSecond (r' : Promise β) : All α β := all.settle .pending r'

variable {all}

@[simp] theorem start_first : (start : All α β).first = .pending := rfl

@[simp] theorem start_second : (start : All α β).second = .pending := rfl

@[simp] theorem start_result : (start : All α β).result = .pending := rfl

theorem settle_pending (p : Promise α) : p.settle .pending = p := by
  cases p <;> rfl

@[simp] theorem settleFirst_first (p' : Promise α) : (all.settleFirst p').first = all.first.settle p' := rfl

@[simp] theorem settleFirst_second (p' : Promise α) : (all.settleFirst p').second = all.second :=
  settle_pending _

@[simp] theorem settleSecond_first (r' : Promise β) : (all.settleSecond r').first = all.first :=
  settle_pending _

@[simp] theorem settleSecond_second (r' : Promise β) : (all.settleSecond r').second = all.second.settle r' :=
  rfl

theorem result_stays (p' : Promise α) (r' : Promise β) (h : all.result ≠ .pending) :
    (all.settle p' r').result = all.result :=
  settle_eq_self h

end All

end Promise
