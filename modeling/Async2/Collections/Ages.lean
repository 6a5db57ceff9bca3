import Async2.Collections.Keeps

/-!
# The age of entries

The age of an entry is computed from the low words of two 64-bit times and read as a signed
cell.  This is the age itself as long as it is below 2^31 milliseconds.  Then a run of a cache
has the answers of the reference in which entries expire by their age.
-/

namespace Async2.Collections

open List Option BitVec Reference

def age (stamp now : Time) : Int := now.toInt - stamp.toInt

/-- The entry is as old as its time to live; 0 stands for no expiry. -/
def older (ttl : Nat) (stamp now : Time) : Bool := ttl ≠ 0 && (ttl : Int) <= age stamp now

variable {ttl : Nat}

theorem toNat_elapsedMs (stamp now : Time) :
    ((elapsedMs stamp now).toNat : Int) = age stamp now % 2 ^ 32 := by
  unfold elapsedMs age
  rw [toNat_sub, toNat_setWidth, toNat_setWidth, toInt_eq_toNat_cond, toInt_eq_toNat_cond]
  have hstamp := stamp.isLt
  have hnow := now.isLt
  split <;> split <;> omega

/-- The low words give the age up to multiples of 2^32. -/
theorem toInt_elapsedMs (stamp now : Time) :
    (elapsedMs stamp now).toInt =
      if age stamp now % 2 ^ 32 < 2 ^ 31 then age stamp now % 2 ^ 32
      else age stamp now % 2 ^ 32 - 2 ^ 32 := by
  have helapsed := toNat_elapsedMs stamp now
  rw [toInt_eq_toNat_cond]
  split
  · rw [if_pos (by omega), helapsed]
  rw [if_neg (by omega), helapsed]
  rfl

theorem expired_iff (hpos : 0 < ttl) (httl : ttl < 2 ^ 31) (stamp now : Time) :
    expired (BitVec.ofNat 32 ttl) stamp now = true <->
      (ttl : Int) <= age stamp now % 2 ^ 32 ∧ age stamp now % 2 ^ 32 < 2 ^ 31 := by
  unfold expired checkStamp
  rw [toInt_ofNat httl, if_neg (by omega), getD_some, toInt_elapsedMs]
  rw [Bool.not_eq_true', decide_eq_false_iff_not]
  split
  · omega
  · omega

/-- Young entries expire at their time to live. -/
theorem expired_eq_older (httl : ttl < 2 ^ 31) {stamp now : Time}
    (hlater : stamp.toInt <= now.toInt) (hage : age stamp now < 2 ^ 31) :
    expired (BitVec.ofNat 32 ttl) stamp now = older ttl stamp now := by
  rcases Nat.eq_zero_or_pos ttl with rfl | hpos
  · rfl
  · have hmod : age stamp now % 2 ^ 32 = age stamp now := by
      unfold age at hage ⊢
      omega
    rw [Bool.eq_iff_iff, expired_iff hpos httl, hmod]
    unfold older
    rw [Bool.and_eq_true, decide_eq_true_eq, decide_eq_true_eq]
    omega

/-!
## Runs
-/

/-- Entries are always younger than 2^31 milliseconds. -/
def AgesBelow {K : Type} [DecidableEq K] (cap ttl : Nat) :
    List (Time × CacheOp K) -> Reference K -> Prop
  | [], _ => True
  | (now, op) :: rest, r =>
    (forall e, e ∈ r.entries -> age e.2.2 now < 2 ^ 31) ∧
      AgesBelow cap ttl rest (r.call cap (older ttl) now op).2

instance AgesBelow.decidable {K : Type} [DecidableEq K] (cap ttl : Nat) :
    (ops : List (Time × CacheOp K)) -> (r : Reference K) -> Decidable (AgesBelow cap ttl ops r)
  | [], _ => isTrue trivial
  | (now, op) :: rest, r =>
    have := AgesBelow.decidable cap ttl rest (r.call cap (older ttl) now op).2
    inferInstanceAs (Decidable (_ ∧ _))

section

variable {C K : Type} [DecidableEq K]
variable {call : C -> Time -> CacheOp K -> Option (CacheAnswer × C)} {cap : Nat} {ttlMs : Cell}
variable {Inv : C -> Reference K -> Prop} {Allowed : CacheOp K -> Prop} {c : C}
variable {r : Reference K}

/-- Every allowed operation has the answer of the reference. -/
def Answers (call : C -> Time -> CacheOp K -> Option (CacheAnswer × C)) (cap : Nat)
    (ttlMs : Cell) (Inv : C -> Reference K -> Prop) (Allowed : CacheOp K -> Prop) : Prop :=
  forall c r now op, Inv c r -> Allowed op ->
    exists c', call c now op = some ((r.call cap (expired ttlMs) now op).1, c') ∧
      Inv c' (r.call cap (expired ttlMs) now op).2

omit [DecidableEq K] in
theorem runCalls_cons {now : Time} {op : CacheOp K} {rest : List (Time × CacheOp K)}
    {answer : CacheAnswer} {answers : List CacheAnswer} {c1 c' : C}
    (hcall : call c now op = some (answer, c1))
    (hrest : runCalls call rest c1 = some (answers, c')) :
    runCalls call ((now, op) :: rest) c = some (answer :: answers, c') := by
  rw [runCalls, hcall, some_bind]
  dsimp only
  rw [hrest]
  rfl

/-- A run has the answers of the reference. -/
theorem Answers.run (hanswers : Answers call cap ttlMs Inv Allowed)
    (ops : List (Time × CacheOp K)) (hallowed : forall op, op ∈ ops -> Allowed op.2) (h : Inv c r) :
    exists c', runCalls call ops c = some ((r.run cap (expired ttlMs) ops).1, c') ∧
      Inv c' (r.run cap (expired ttlMs) ops).2 := by
  induction ops generalizing c r with
  | nil => exact ⟨c, rfl, h⟩
  | cons first rest ih =>
    rcases first with ⟨now, op⟩
    rcases hanswers c r now op h (hallowed _ mem_cons_self) with ⟨c1, hcall, hinv⟩
    rcases ih (fun op hop => hallowed op (mem_cons_of_mem _ hop)) hinv
      with ⟨c', hrun, hinv'⟩
    exact ⟨c', runCalls_cons hcall hrun, hinv'⟩

end

variable {K : Type} [DecidableEq K] {cap : Nat}

theorem run_expired_eq_older {ttl : Nat} (httl : ttl < 2 ^ 31) (ops : List (Time × CacheOp K))
    {r : Reference K} (hsorted : (ops.map Prod.fst).Pairwise fun s t => s.toInt <= t.toInt)
    (hstamps : forall e, e ∈ r.entries -> forall t, t ∈ ops.map Prod.fst -> e.2.2.toInt <= t.toInt)
    (hages : AgesBelow cap ttl ops r) :
    r.run cap (expired (BitVec.ofNat 32 ttl)) ops = r.run cap (older ttl) ops := by
  induction ops generalizing r with
  | nil => rfl
  | cons first rest ih =>
    rcases first with ⟨now, op⟩
    have hsame : forall e, e ∈ r.entries ->
        expired (BitVec.ofNat 32 ttl) e.2.2 now = older ttl e.2.2 now := fun e he =>
      expired_eq_older httl (hstamps e he now mem_cons_self) (hages.left e he)
    have hparts := pairwise_cons.mp hsorted
    have hstamps1 : forall e, e ∈ (r.call cap (older ttl) now op).2.entries ->
        forall t, t ∈ rest.map Prod.fst -> e.2.2.toInt <= t.toInt := by
      intro e he t ht
      rcases stamp_mem_call he with hnow | ⟨e', he', hstamp⟩
      · rw [hnow]
        exact hparts.left t ht
      · rw [← hstamp]
        exact hstamps e' he' t (mem_cons_of_mem _ ht)
    rw [run, run, call_congr hsame]
    dsimp only
    rw [ih hparts.right hstamps1 hages.right]

theorem run_disabled (ops : List (Time × CacheOp K)) (r : Reference K) :
    r.run cap (expired 0) ops = r.run cap (fun _ _ => false) ops := by
  have hnever : expired 0 = fun _ _ => false := by
    funext stamp now
    exact expired_of_disabled (by decide) stamp now
  rw [hnever]

end Async2.Collections
