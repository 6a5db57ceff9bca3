import Async2.Foundation.Stacks
import Async2.Foundation.TransitionSystem
import Mathlib.Data.List.Range

/-!
# The pool of the nodes

`FixedPool` keeps its free blocks in a central list, which a mutex protects, and in a cache per
thread.  A thread that finds its cache empty takes a batch from the central list, and one whose
cache has become too large gives a batch back.  The calls of the threads are taken apart at the
points where they wait for the mutex.
-/

namespace Async2.Pool

open TransitionSystem Stacks Function List Option

abbrev Block := Nat

abbrev Thread := Nat

structure ThreadCache where
  freeList : Option Block
  count : Nat

/-- Blocks are numbered as `Grow` makes them, and the cache of a thread has its name. -/
structure FixedPool where
  -- `FreeBlock::next`, which is what the holder of a block has written if it is not free
  next : Block -> Option Block
  freeList : Option Block
  nextChunkCount : Nat
  totalAllocated : Nat
  freeCount : Nat
  cache : Thread -> ThreadCache
  caches : List Thread

def kBatchSize : Nat := 128
def kMaxLocal : Nat := 256
def kReturnCount : Nat := 128

def kAlignedSize (blockSize blockAlign : UInt64) : UInt64 :=
  (blockSize + blockAlign - 1) &&& ~~~(blockAlign - 1)

namespace FixedPool

def init : FixedPool := ⟨fun _ => none, none, 256, 0, 0, fun _ => ⟨none, 0⟩, []⟩

/-- `tl_cache` is set in the threads that are registered. -/
def getCache (p : FixedPool) (t : Thread) : FixedPool :=
  if t ∈ p.caches then p else { p with caches := p.caches ++ [t] }

/-- Takes the first block of a cache; there is no result where the code follows a null pointer. -/
def popLocal (p : FixedPool) (t : Thread) : Option (Block × FixedPool) :=
  (p.cache t).freeList.map fun b =>
    (b, { p with cache := update p.cache t ⟨p.next b, (p.cache t).count - 1⟩ })

def pushLocal (p : FixedPool) (t : Thread) (b : Block) : FixedPool :=
  { p with
    next := update p.next b (p.cache t).freeList
    cache := update p.cache t ⟨some b, (p.cache t).count + 1⟩ }

def pushCentral (p : FixedPool) (b : Block) : FixedPool :=
  { p with next := update p.next b p.freeList, freeList := some b }

def grow (p : FixedPool) : FixedPool :=
  { (List.range' p.totalAllocated p.nextChunkCount).foldl pushCentral p with
    totalAllocated := p.totalAllocated + p.nextChunkCount
    freeCount := p.freeCount + p.nextChunkCount
    nextChunkCount := min (p.nextChunkCount * 2) 65536 }

/-- The loop of `Alloc` that moves at most `n` blocks into a cache. -/
def transfer (t : Thread) : Nat -> FixedPool -> FixedPool
  | 0, p => p
  | n + 1, p =>
    match p.freeList with
    | none => p
    | some b =>
      transfer t n
        ({ p with freeList := p.next b, freeCount := p.freeCount - 1 }.pushLocal t b)

/-- The slow path of `Alloc`, under the mutex. -/
def refill (p : FixedPool) (t : Thread) : Option (Block × FixedPool) :=
  (transfer t kBatchSize (if p.freeList = none then p.grow else p)).popLocal t

/-- The loop of `Free` that gives `n` blocks back, under the mutex. -/
def giveBack (t : Thread) : Nat -> FixedPool -> Option FixedPool
  | 0, p => some p
  | n + 1, p =>
    match p.popLocal t with
    | none => none
    | some (b, q) => giveBack t n { q.pushCentral b with freeCount := q.freeCount + 1 }

/-- The total, the number of free blocks and the size of a block. -/
def stats (p : FixedPool) (blockSize blockAlign : UInt64) : Nat × Nat × UInt64 :=
  (p.totalAllocated, p.caches.foldl (fun n t => n + (p.cache t).count) p.freeCount,
    kAlignedSize blockSize blockAlign)

end FixedPool

/-!
## Threads
-/

/-- What a thread waits for the mutex with. -/
inductive Call where
  | idle
  | refilling
  | returning
deriving DecidableEq

structure State where
  pool : FixedPool
  -- the blocks that `Alloc` has returned and `Free` has not got back
  out : List Block
  calls : Thread -> Call

inductive Action where
  | getCache (t : Thread)
  | alloc (t : Thread)
  | refill (t : Thread)
  | free (t : Thread) (b : Block)
  | giveBack (t : Thread)
  -- a write to a block that is handed out
  | write (b : Block) (word : Option Block)

/-- `Alloc` has its result. -/
def State.returns (s : State) (t : Thread) (result : Block × FixedPool) : State :=
  ⟨result.2, result.1 :: s.out, update s.calls t .idle⟩

/-- The part of `Free` before the mutex. -/
def State.free (s : State) (t : Thread) (b : Block) : State :=
  ⟨s.pool.pushLocal t b, s.out.erase b, update s.calls t
    (if kMaxLocal < ((s.pool.pushLocal t b).cache t).count then .returning else .idle)⟩

def step : Action -> State -> Option State
  | .getCache t, s => if s.calls t = .idle then some { s with pool := s.pool.getCache t } else none
  | .alloc t, s =>
    if s.calls t = .idle ∧ t ∈ s.pool.caches then
      match s.pool.popLocal t with
      | some result => some (s.returns t result)
      | none => some { s with calls := update s.calls t .refilling }
    else none
  | .refill t, s =>
    if s.calls t = .refilling then (s.pool.refill t).map (s.returns t) else none
  | .free t b, s =>
    if s.calls t = .idle ∧ t ∈ s.pool.caches ∧ b ∈ s.out then some (s.free t b) else none
  | .giveBack t, s =>
    if s.calls t = .returning then
      (s.pool.giveBack t kReturnCount).map fun p =>
        { s with pool := p, calls := update s.calls t .idle }
    else none
  | .write b word, s =>
    if b ∈ s.out then
      some { s with pool := { s.pool with next := update s.pool.next b word } }
    else none

def system : System State Action where
  init := ⟨FixedPool.init, [], fun _ => .idle⟩
  step := step

/-!
## Where the blocks are
-/

inductive Place where
  | handedOut
  | central
  | cache (t : Thread)
deriving DecidableEq

/-- The first block and the count of the lists. -/
def FixedPool.stack (p : FixedPool) : Place -> Option Block × Nat
  | .handedOut => (none, 0)
  | .central => (p.freeList, p.freeCount)
  | .cache t => ((p.cache t).freeList, (p.cache t).count)

/-- Every block is in one place, and the lists of the pool have their lengths as counts. -/
structure Arranged (p : FixedPool) (lists : Place -> List Block) : Prop where
  split : Split lists p.totalAllocated
  held : forall C, C ≠ .handedOut ->
    Linked p.next (p.stack C).1 (lists C) ∧ (p.stack C).2 = (lists C).length
  registered : forall t, t ∉ p.caches -> lists (.cache t) = []
  caches_nodup : p.caches.Nodup
  grows : 0 < p.nextChunkCount

/-- A thread has changed its own cache and the places that the threads share. -/
structure Turn (t : Thread) (p q : FixedPool) (lists lists' : Place -> List Block) : Prop where
  arranged : Arranged q lists'
  others : forall t', t' ≠ t -> lists' (.cache t') = lists (.cache t')
  caches : q.caches = p.caches

section

variable {p q r : FixedPool} {lists lists' lists'' : Place -> List Block} {A B : Place} {b : Block}
  {t : Thread}

theorem Turn.trans (h : Turn t p q lists lists') (h' : Turn t q r lists' lists'') :
    Turn t p r lists lists'' :=
  ⟨h'.arranged, fun t' ht' => (h'.others t' ht').trans (h.others t' ht'), h'.caches.trans h.caches⟩

section

variable (h : Arranged p lists)
include h

theorem Arranged.turn_refl : Turn t p p lists lists := ⟨h, fun _ _ => rfl, rfl⟩

theorem Arranged.mem_of_first {C : Place} (hC : C ≠ .handedOut) (hfirst : (p.stack C).1 = some b) :
    b ∈ lists C := by
  have hlinked := (h.held C hC).1
  rw [hfirst] at hlinked
  rcases hlinked.eq_cons with ⟨rest, hl, -⟩
  rw [hl]
  exact mem_cons_self

theorem Arranged.eq_nil {C : Place} (hC : C ≠ .handedOut) (hfirst : (p.stack C).1 = none) :
    lists C = [] := by
  have hlinked := (h.held C hC).1
  rw [hfirst] at hlinked
  exact hlinked.eq_nil

/-- A block is moved, and its link and the heads and counts of the two places are written. -/
theorem Arranged.move (ht : t ∈ p.caches) (hne : A ≠ B) (hb : b ∈ lists A)
    (hnext : forall c, c ≠ b -> q.next c = p.next c)
    (hself : B ≠ .handedOut -> q.next b = (p.stack B).1)
    (hfirst : A ≠ .handedOut -> (p.stack A).1 = some b)
    (hstack : forall C, C ≠ .handedOut -> q.stack C =
      if C = A then (p.next b, (p.stack C).2 - 1)
      else if C = B then (some b, (p.stack C).2 + 1) else p.stack C)
    (hrest : q.totalAllocated = p.totalAllocated ∧ q.caches = p.caches ∧
      q.nextChunkCount = p.nextChunkCount)
    (hown : forall t', t' ≠ t -> .cache t' ≠ A ∧ .cache t' ≠ B) :
    Turn t p q lists (Stacks.move lists A B b) := by
  rcases hrest with ⟨htotal, hcaches, hchunk⟩
  have hothers : forall t', t' ≠ t -> Stacks.move lists A B b (.cache t') = lists (.cache t') :=
    fun t' ht' => move_other (hown t' ht').1 (hown t' ht').2
  refine ⟨⟨htotal ▸ h.split.move hne hb, fun C hC => ?_, fun t' ht' => ?_, hcaches ▸ h.caches_nodup,
    hchunk ▸ h.grows⟩, hothers, hcaches⟩
  · refine Linked.move h.split hne hb (h.held C hC) hnext (fun heq => ?_) (fun heq => ?_)
      (hstack C hC)
    · subst heq
      exact hself hC
    · subst heq
      exact hfirst hC
  · rw [hcaches] at ht'
    rw [hothers t' fun heq => ht' (heq ▸ ht)]
    exact h.registered t' ht'

theorem Arranged.pushLocal (ht : t ∈ p.caches) (hb : b ∈ lists .handedOut) :
    Turn t p (p.pushLocal t b) lists (Stacks.move lists .handedOut (.cache t) b) := by
  refine h.move ht (by simp) hb (fun c hc => update_of_ne hc _ _)
    (fun _ => update_self ..) (by simp) (fun C hC => ?_) ⟨rfl, rfl, rfl⟩ (by simp)
  cases C <;> simp [FixedPool.pushLocal, FixedPool.stack, update_apply] at hC ⊢
  split <;> simp_all

theorem Arranged.transferOne (ht : t ∈ p.caches) (hfirst : p.freeList = some b) :
    Turn t p ({ p with freeList := p.next b, freeCount := p.freeCount - 1 }.pushLocal t b) lists
      (Stacks.move lists .central (.cache t) b) := by
  refine h.move ht (by simp) (h.mem_of_first (by simp) hfirst)
    (fun c hc => update_of_ne hc _ _) (fun _ => update_self ..) (fun _ => hfirst)
    (fun C hC => ?_) ⟨rfl, rfl, rfl⟩ (by simp)
  cases C <;> simp [FixedPool.pushLocal, FixedPool.stack, update_apply] at hC ⊢
  split <;> simp_all

theorem Arranged.popLocal (ht : t ∈ p.caches) (hpop : p.popLocal t = some (b, q)) :
    b ∈ lists (.cache t) ∧ Turn t p q lists (Stacks.move lists (.cache t) .handedOut b) := by
  rcases map_eq_some_iff.mp hpop with ⟨c, hfirst, heq⟩
  cases heq
  have hb : b ∈ lists (.cache t) := h.mem_of_first (by simp) hfirst
  refine ⟨hb, h.move ht (by simp) hb (fun _ _ => rfl) (by simp) (fun _ => hfirst) (fun C hC => ?_)
    ⟨rfl, rfl, rfl⟩ (by simp)⟩
  cases C <;> simp [FixedPool.stack, update_apply] at hC ⊢
  split <;> simp_all

theorem Arranged.giveBackOne (ht : t ∈ p.caches) (hpop : p.popLocal t = some (b, q)) :
    Turn t p { q.pushCentral b with freeCount := q.freeCount + 1 } lists
      (Stacks.move lists (.cache t) .central b) := by
  have hb := (h.popLocal ht hpop).1
  rcases map_eq_some_iff.mp hpop with ⟨c, hfirst, heq⟩
  cases heq
  refine h.move ht (by simp) hb (fun c hc => update_of_ne hc _ _)
    (fun _ => update_self ..) (fun _ => hfirst) (fun C hC => ?_) ⟨rfl, rfl, rfl⟩ (by simp)
  cases C <;> simp [FixedPool.pushCentral, FixedPool.stack, update_apply] at hC ⊢
  split <;> simp_all

theorem Arranged.popLocal_isSome (hne : lists (.cache t) ≠ []) : (p.popLocal t).isSome := by
  rw [FixedPool.popLocal, isSome_map]
  refine isSome_iff_ne_none.mpr fun hfirst => hne ?_
  exact h.eq_nil (by simp) hfirst

end

/-!
## Batches
-/

theorem pushCentral_all (bs : List Block) (p : FixedPool) (total count : Nat) :
    bs.foldl FixedPool.pushCentral { p with totalAllocated := total, freeCount := count } =
      { bs.foldl FixedPool.pushCentral p with totalAllocated := total, freeCount := count } := by
  induction bs generalizing p with
  | nil => rfl
  | cons b rest ih => exact ih (p.pushCentral b)

theorem Arranged.addOne (h : Arranged p lists) : Turn t p
    { p.pushCentral p.totalAllocated with
      totalAllocated := p.totalAllocated + 1, freeCount := p.freeCount + 1 } lists
    (update lists .central (p.totalAllocated :: lists .central)) := by
  have hold : forall {C b}, b ∈ lists C -> b ≠ p.totalAllocated := fun hb =>
    Nat.ne_of_lt ((h.split.cells _).mpr ⟨_, hb⟩)
  refine ⟨⟨h.split.push .central, fun C hC => ?_, fun t' ht' => ?_, h.caches_nodup, h.grows⟩,
    fun t' _ => update_of_ne (by simp) _ _, rfl⟩
  · have hheld := h.held C hC
    have hframe : Linked (p.pushCentral p.totalAllocated).next _ _ :=
      hheld.1.congr fun c hc => update_of_ne (hold hc) _ _
    cases C with
    | handedOut => exact absurd rfl hC
    | cache t => exact ⟨hframe, hheld.2⟩
    | central =>
      refine ⟨⟨rfl, ?_⟩, congrArg (· + 1) hheld.2⟩
      have hself : (p.pushCentral p.totalAllocated).next p.totalAllocated = p.freeList :=
        update_self ..
      exact hself ▸ hframe
  · exact (update_of_ne (by simp) _ _).trans (h.registered t' ht')

theorem Arranged.addBlocks (n : Nat) (h : Arranged p lists) :
    exists lists', Turn t p
        { (List.range' p.totalAllocated n).foldl FixedPool.pushCentral p with
          totalAllocated := p.totalAllocated + n, freeCount := p.freeCount + n } lists lists' ∧
      lists' .handedOut = lists .handedOut ∧ lists' (.cache t) = lists (.cache t) ∧
      (lists' .central).length = (lists .central).length + n := by
  induction n generalizing p lists with
  | zero => exact ⟨lists, h.turn_refl, rfl, rfl, rfl⟩
  | succ n ih =>
    have hone := h.addOne (t := t)
    rcases ih hone.arranged with ⟨lists', hturn, hout, hcache, hlength⟩
    refine ⟨lists', ?_, hout, hcache, ?_⟩
    · rw [pushCentral_all, Nat.add_right_comm _ 1 n, Nat.add_right_comm _ 1 n] at hturn
      exact hone.trans hturn
    · rw [hlength, update_self, length_cons]
      omega

theorem Arranged.grow (h : Arranged p lists) :
    exists lists', Turn t p p.grow lists lists' ∧ lists' .handedOut = lists .handedOut ∧
      lists' (.cache t) = lists (.cache t) ∧ lists' .central ≠ [] := by
  have hgrows := h.grows
  rcases h.addBlocks (t := t) p.nextChunkCount with ⟨lists', hturn, hout, hcache, hlength⟩
  have harranged := hturn.arranged
  refine ⟨lists', ⟨⟨harranged.split, harranged.held, harranged.registered, harranged.caches_nodup,
    ?_⟩, hturn.others, hturn.caches⟩, hout, hcache, ne_nil_of_length_pos (by omega)⟩
  exact Nat.lt_min.mpr ⟨Nat.mul_pos hgrows (by decide), by decide⟩

/-- The blocks that are moved into the cache are those that there are, up to the size of a batch. -/
theorem Arranged.transfer (n : Nat) (h : Arranged p lists) (ht : t ∈ p.caches) :
    exists lists', Turn t p (FixedPool.transfer t n p) lists lists' ∧
      lists' .handedOut = lists .handedOut ∧
      (lists' (.cache t)).length = (lists (.cache t)).length + min n (lists .central).length := by
  induction n generalizing p lists with
  | zero => exact ⟨lists, h.turn_refl, rfl, by simp⟩
  | succ n ih =>
    unfold FixedPool.transfer
    split
    case h_1 hfirst =>
      have hempty : lists .central = [] := h.eq_nil (by simp) hfirst
      exact ⟨lists, h.turn_refl, rfl, by simp [hempty]⟩
    case h_2 b hfirst =>
      have hone := h.transferOne ht hfirst
      rcases ih hone.arranged ht with ⟨lists', hturn, hout, hlength⟩
      have hb : b ∈ lists .central := h.mem_of_first (by simp) hfirst
      have hpos := length_pos_of_mem hb
      refine ⟨lists', hone.trans hturn, hout.trans (move_other (by simp) (by simp)), ?_⟩
      rw [hlength, move_target, move_source (by simp), length_cons,
        length_erase_of_mem hb]
      omega

theorem Arranged.giveBack (n : Nat) (h : Arranged p lists) (ht : t ∈ p.caches)
    (hn : n <= (lists (.cache t)).length) :
    exists q lists', FixedPool.giveBack t n p = some q ∧ Turn t p q lists lists' ∧
      lists' .handedOut = lists .handedOut ∧
      (lists' (.cache t)).length = (lists (.cache t)).length - n := by
  induction n generalizing p lists with
  | zero => exact ⟨p, lists, rfl, h.turn_refl, rfl, rfl⟩
  | succ n ih =>
    have hne : lists (.cache t) ≠ [] := ne_nil_of_length_pos (by omega)
    rcases isSome_iff_exists.mp (h.popLocal_isSome hne) with ⟨⟨b, q⟩, hpop⟩
    have hone := h.giveBackOne ht hpop
    have hlength : (Stacks.move lists (.cache t) .central b (.cache t)).length =
        (lists (.cache t)).length - 1 := by
      rw [move_source (by simp), length_erase_of_mem (h.popLocal ht hpop).1]
    rcases ih hone.arranged (hone.caches ▸ ht) (by omega) with
      ⟨q', lists', heq, hturn, hout, hlength'⟩
    refine ⟨q', lists', ?_, hone.trans hturn, hout.trans (move_other (by simp) (by simp)), ?_⟩
    · simp only [FixedPool.giveBack, hpop]
      exact heq
    · omega

/-- The slow path of `Alloc` finds a block. -/
theorem Arranged.refill (h : Arranged p lists) (ht : t ∈ p.caches)
    (hempty : lists (.cache t) = []) :
    exists b q lists', p.refill t = some (b, q) ∧ Turn t p q lists lists' ∧
      lists' .handedOut = b :: lists .handedOut ∧ (lists' (.cache t)).length <= kMaxLocal := by
  have hgrown : exists lists₀, Turn t p (if p.freeList = none then p.grow else p) lists lists₀ ∧
      lists₀ .handedOut = lists .handedOut ∧ lists₀ (.cache t) = lists (.cache t) ∧
      lists₀ .central ≠ [] := by
    split
    · exact h.grow
    case isFalse hfirst =>
      rcases ne_none_iff_exists'.mp hfirst with ⟨b, hb⟩
      exact ⟨lists, h.turn_refl, rfl, rfl, ne_nil_of_mem (h.mem_of_first (by simp) hb)⟩
  rcases hgrown with ⟨lists₀, hturn₀, hout₀, hcache₀, hcentral₀⟩
  have ht₀ := hturn₀.caches ▸ ht
  rcases hturn₀.arranged.transfer kBatchSize ht₀ with ⟨lists₁, hturn₁, hout₁, hlength₁⟩
  have hpos := length_pos_iff.mpr hcentral₀
  simp only [hcache₀, hempty, kBatchSize, length_nil] at hlength₁
  have hne : lists₁ (.cache t) ≠ [] := ne_nil_of_length_pos (by omega)
  rcases isSome_iff_exists.mp (hturn₁.arranged.popLocal_isSome hne) with ⟨⟨b, q⟩, hpop⟩
  rcases hturn₁.arranged.popLocal (hturn₁.caches ▸ ht₀) hpop with ⟨hb, hdone⟩
  refine ⟨b, q, _, hpop, (hturn₀.trans hturn₁).trans hdone, ?_, ?_⟩
  · rw [move_target, hout₁, hout₀]
  · rw [move_source (by simp), length_erase_of_mem hb, kMaxLocal]
    omega

end

/-!
## Runs
-/

/-- The size of a thread's cache at each point of its calls. -/
def Call.Fits (n : Nat) : Call -> Prop
  | .idle => n <= kMaxLocal
  | .refilling => n = 0
  | .returning => n = kMaxLocal + 1

structure Inv (s : State) (lists : Place -> List Block) : Prop where
  arranged : Arranged s.pool lists
  out : lists .handedOut = s.out
  fits : forall t, (s.calls t).Fits (lists (.cache t)).length
  calling : forall t, s.calls t ≠ .idle -> t ∈ s.pool.caches

variable {s s' : State} {p q : FixedPool} {lists lists' : Place -> List Block} {t : Thread}

theorem Inv.turn (h : Inv s lists) (ht : t ∈ s.pool.caches) (hturn : Turn t s.pool q lists lists')
    {c : Call} (hfits : c.Fits (lists' (.cache t)).length) :
    Inv ⟨q, lists' .handedOut, update s.calls t c⟩ lists' := by
  refine ⟨hturn.arranged, rfl, fun t' => ?_, fun t' hcall => hturn.caches ▸ ?_⟩
  · dsimp only
    by_cases ht' : t' = t
    · subst ht'
      rw [update_self]
      exact hfits
    · rw [update_of_ne ht', hturn.others t' ht']
      exact h.fits t'
  · by_cases ht' : t' = t
    · exact ht' ▸ ht
    · exact h.calling t' (update_of_ne ht' c s.calls ▸ hcall)

section

variable (h : Inv s lists)
include h

theorem Inv.fits_of {c : Call} (hcall : s.calls t = c) : c.Fits (lists (.cache t)).length :=
  hcall ▸ h.fits t

theorem Inv.refill (hcall : s.calls t = .refilling) :
    exists b q lists', s.pool.refill t = some (b, q) ∧ Turn t s.pool q lists lists' ∧
      lists' .handedOut = b :: s.out ∧ (lists' (.cache t)).length <= kMaxLocal := by
  rw [← h.out]
  exact h.arranged.refill (h.calling t (by simp [hcall]))
    (length_eq_zero_iff.mp (h.fits_of hcall))

theorem Inv.giveBack (hcall : s.calls t = .returning) :
    exists q lists', FixedPool.giveBack t kReturnCount s.pool = some q ∧
      Turn t s.pool q lists lists' ∧ lists' .handedOut = s.out ∧
      (lists' (.cache t)).length <= kMaxLocal := by
  have hlarge : (lists (.cache t)).length = kMaxLocal + 1 := h.fits_of hcall
  rcases h.arranged.giveBack kReturnCount (h.calling t (by simp [hcall])) (by rw [hlarge]; decide)
    with ⟨q, lists', heq, hturn, hout, hlength⟩
  refine ⟨q, lists', heq, hturn, hout.trans h.out, ?_⟩
  rw [hlength, hlarge]
  decide

theorem Inv.getCache (t : Thread) : Inv { s with pool := s.pool.getCache t } lists := by
  unfold FixedPool.getCache
  split
  · exact h
  case isFalse ht =>
    refine ⟨⟨h.arranged.split, h.arranged.held, fun t' ht' => ?_, ?_, h.arranged.grows⟩, h.out,
      h.fits, fun t' hcall => mem_append_left _ (h.calling t' hcall)⟩
    · exact h.arranged.registered t' fun hmem => ht' (mem_append_left _ hmem)
    · exact nodup_append.mpr ⟨h.arranged.caches_nodup, by simp, by grind⟩

theorem Inv.write {b : Block} (hb : b ∈ s.out) (word : Option Block) :
    Inv { s with pool := { s.pool with next := update s.pool.next b word } } lists := by
  rw [← h.out] at hb
  refine ⟨⟨h.arranged.split, fun C hC => ⟨?_, (h.arranged.held C hC).2⟩, h.arranged.registered,
    h.arranged.caches_nodup, h.arranged.grows⟩, h.out, h.fits, h.calling⟩
  refine (h.arranged.held C hC).1.congr fun c hc => update_of_ne ?_ _ _
  rintro rfl
  exact hC (h.arranged.split.disjoint hc hb)

theorem Inv.step {action : Action} (hstep : Pool.step action s = some s') :
    exists lists', Inv s' lists' := by
  cases action with
  | getCache t =>
    cases (ite_none_right_eq_some.mp hstep).2
    exact ⟨lists, h.getCache t⟩
  | alloc t =>
    rcases ite_none_right_eq_some.mp hstep with ⟨⟨hidle, ht⟩, hdone⟩
    cases hpop : s.pool.popLocal t with
    | none =>
      rw [hpop] at hdone
      cases hdone
      have hempty : lists (.cache t) = [] := by
        by_contra hne
        have hsome := h.arranged.popLocal_isSome hne
        simp [hpop] at hsome
      have hinv := h.turn ht h.arranged.turn_refl (c := .refilling) (by rw [hempty]; rfl)
      exact ⟨lists, h.out ▸ hinv⟩
    | some result =>
      rw [hpop] at hdone
      cases hdone
      rcases h.arranged.popLocal ht hpop with ⟨hb, hturn⟩
      have hinv := h.turn ht hturn (c := .idle) (by
        rw [move_source (by simp), length_erase_of_mem hb]
        exact (Nat.sub_le _ _).trans (h.fits_of hidle))
      rw [move_target, h.out] at hinv
      exact ⟨_, hinv⟩
  | refill t =>
    rcases ite_none_right_eq_some.mp hstep with ⟨hcall, hdone⟩
    rcases h.refill hcall with ⟨b, q, lists', heq, hturn, hout, hlength⟩
    rw [heq] at hdone
    cases hdone
    have hinv := h.turn (h.calling t (by simp [hcall])) hturn (c := .idle) hlength
    rw [hout] at hinv
    exact ⟨lists', hinv⟩
  | free t b =>
    rcases ite_none_right_eq_some.mp hstep with ⟨⟨hidle, ht, hb⟩, hdone⟩
    cases hdone
    have hturn := h.arranged.pushLocal ht (h.out ▸ hb)
    have hcount : ((s.pool.pushLocal t b).cache t).count = _ :=
      (hturn.arranged.held (.cache t) (by simp)).2
    rw [move_target, length_cons] at hcount
    have hsmall : (lists (.cache t)).length <= kMaxLocal := h.fits_of hidle
    have hinv := h.turn ht hturn (c := if kMaxLocal < ((s.pool.pushLocal t b).cache t).count
      then .returning else .idle) (by
        rw [move_target, length_cons, hcount]
        split
        case isTrue hlarge => exact Nat.le_antisymm (Nat.succ_le_succ hsmall) hlarge
        case isFalse hlarge => exact Nat.not_lt.mp hlarge)
    rw [move_source (by simp), h.out] at hinv
    exact ⟨_, hinv⟩
  | giveBack t =>
    rcases ite_none_right_eq_some.mp hstep with ⟨hcall, hdone⟩
    rcases h.giveBack hcall with ⟨q, lists', heq, hturn, hout, hlength⟩
    rw [heq] at hdone
    cases hdone
    exact ⟨lists', hout ▸ h.turn (h.calling t (by simp [hcall])) hturn (c := .idle) hlength⟩
  | write b word =>
    rcases ite_none_right_eq_some.mp hstep with ⟨hb, hdone⟩
    cases hdone
    exact ⟨lists, h.write hb word⟩

end

/-- What holds at every point of the calls, with the blocks of the central list and of the
caches: each block is at one place, and `Alloc` and `Free` do not follow null pointers. -/
structure Conserves (s : State) (central : List Block) (cached : Thread -> List Block) : Prop where
  central_linked : Linked s.pool.next s.pool.freeList central
  cached_linked : forall t, Linked s.pool.next (s.pool.cache t).freeList (cached t)
  unregistered : forall t, t ∉ s.pool.caches -> cached t = []
  partition : (s.out ++ (central ++ s.pool.caches.flatMap cached)).Perm
    (List.range s.pool.totalAllocated)
  free_count : s.pool.freeCount = central.length
  counts : forall t, (s.pool.cache t).count = (cached t).length
  bounded : forall t, s.calls t = .idle -> (cached t).length <= kMaxLocal
  alloc_finds : forall t, s.calls t = .refilling -> (s.pool.refill t).isSome
  free_finds : forall t, s.calls t = .returning -> (FixedPool.giveBack t kReturnCount s.pool).isSome
  stats_exact : forall size align, s.pool.stats size align = (s.pool.totalAllocated,
    (central ++ s.pool.caches.flatMap cached).length, kAlignedSize size align)

theorem Arranged.perm (h : Arranged p lists) :
    (lists .handedOut ++ (lists .central ++ p.caches.flatMap fun t => lists (.cache t))).Perm
      (List.range p.totalAllocated) := by
  have hplaces : (Place.handedOut :: .central :: p.caches.map .cache).Nodup := by
    simp [nodup_map_iff (f := Place.cache) fun _ _ => by simp, h.caches_nodup]
  have hflat : lists .handedOut ++ (lists .central ++ p.caches.flatMap fun t => lists (.cache t)) =
      (Place.handedOut :: .central :: p.caches.map .cache).flatMap lists := by
    simp [flatMap_map]
  have hnodup : ((Place.handedOut :: .central :: p.caches.map .cache).flatMap lists).Nodup := by
    refine nodup_flatMap.mpr ⟨fun C _ => h.split.nodup C, ?_⟩
    exact hplaces.imp fun hne b hb hc => hne (h.split.disjoint hb hc)
  rw [hflat, perm_ext_iff_of_nodup hnodup nodup_range]
  intro b
  rw [mem_range, h.split.cells, mem_flatMap]
  constructor
  · rintro ⟨C, -, hb⟩
    exact ⟨C, hb⟩
  · rintro ⟨C, hb⟩
    refine ⟨C, ?_, hb⟩
    cases C with
    | handedOut | central => simp
    | cache t =>
      have ht : t ∈ p.caches := by
        by_contra hnot
        rw [h.registered t hnot] at hb
        cases hb
      simp [ht]

theorem sum_counts (f : Thread -> Nat) (cached : Thread -> List Block) (ts : List Thread) (n : Nat)
    (h : forall t, f t = (cached t).length) :
    ts.foldl (fun n t => n + f t) n = n + (ts.flatMap cached).length := by
  induction ts generalizing n with
  | nil => rfl
  | cons t rest ih =>
    rw [foldl_cons, ih, flatMap_cons, length_append, h]
    omega

theorem Inv.conserves (h : Inv s lists) :
    Conserves s (lists .central) fun t => lists (.cache t) := by
  have hcentral := h.arranged.held .central (by simp)
  have hcached := fun t => h.arranged.held (.cache t) (by simp)
  refine ⟨hcentral.1, fun t => (hcached t).1, h.arranged.registered, h.out ▸ h.arranged.perm,
    hcentral.2, fun t => (hcached t).2, fun t hidle => h.fits_of hidle, fun t hcall => ?_,
    fun t hcall => ?_, fun size align => ?_⟩
  · rcases h.refill hcall with ⟨b, q, lists', heq, -⟩
    rw [heq]
    rfl
  · rcases h.giveBack hcall with ⟨q, lists', heq, -⟩
    rw [heq]
    rfl
  · have hcounts : forall t, (s.pool.cache t).count = (lists (.cache t)).length := fun t =>
      (hcached t).2
    rw [FixedPool.stats, sum_counts _ _ _ _ hcounts, length_append, ← hcentral.2]
    rfl

/-- Blocks are neither lost nor duplicated, whichever threads allocate and free them. -/
theorem pool_conserves_blocks (h : Reaches system (fun _ _ => True) s) :
    exists central cached, Conserves s central cached := by
  have hinv : exists lists, Inv s lists := by
    refine h.invariant (fun s => exists lists, Inv s lists) ⟨fun _ => [], ?_⟩ ?_
    · refine ⟨⟨⟨fun _ => List.nodup_nil, fun hp => (by cases hp), fun b => ?_⟩, fun C _ => ?_,
        fun _ _ => rfl, List.nodup_nil, by decide⟩, rfl, fun _ => Nat.zero_le _,
        fun _ hcall => absurd rfl hcall⟩
      · simp [system, FixedPool.init]
      · cases C <;> exact ⟨rfl, rfl⟩
    · rintro s action s' ⟨lists, hinv⟩ - hstep
      exact hinv.step hstep
  rcases hinv with ⟨lists, hinv⟩
  exact ⟨_, _, hinv.conserves⟩

/-- A thread frees the block that another one has allocated. -/
theorem pool_conserves_freedElsewhere :
    exists s, system.run [.getCache 0, .alloc 0, .refill 0, .getCache 1, .free 1 128] system.init =
        some s ∧
      exists central cached, Conserves s central cached := by
  have hrun : (system.run [.getCache 0, .alloc 0, .refill 0, .getCache 1, .free 1 128]
    system.init).isSome := by decide +kernel
  rcases Option.isSome_iff_exists.mp hrun with ⟨s, hs⟩
  exact ⟨s, hs, pool_conserves_blocks (reaches_of_run _ .init (by decide +kernel) hs)⟩

end Async2.Pool
