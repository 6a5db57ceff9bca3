import Async2.Foundation.BigEndian
import Async2.Foundation.Dict
import Async2.Foundation.TransitionSystem

/-!
# The DNS cache

Answers of c-ares are kept for as long as they say, at most for a configured time.  They come
in on the event thread, in any order, while other threads flush the cache or configure it.
The resolver tests whether the cache is enabled before it takes the lock; as the
configuration may change in between, the outcome of the test is an argument of the functions.
-/

namespace Async2.Dns

open TransitionSystem List Dict

inductive Family where
  | inet
  | inet6
  | other
deriving DecidableEq

/-- A `sockaddr_storage` and its length. -/
structure SockAddr where
  family : Family
  port : BitVec 16
  fields : Bytes
  addrlen : Nat
deriving DecidableEq

def SockAddr.setAddrPort (addr : SockAddr) (port : Int) : SockAddr :=
  match addr.family with
  | .inet | .inet6 => { addr with port := BitVec.ofInt 16 port }
  | .other => addr

/-- The steady clock counts nanoseconds. -/
structure DnsCacheEntry where
  addr : SockAddr
  expiresAt : Int

/-- The first node of an answer; its address is of the family that it names. -/
structure AddrinfoNode where
  addr : SockAddr
  ttl : Int
deriving DecidableEq

structure ResolveRequest where
  port : Int
  hostname : Bytes
deriving DecidableEq

/-- A successful completion, with the configured maximum and the time. -/
structure Completion where
  host : Bytes
  node : AddrinfoNode
  maxTtl : Int
  time : Int

structure DnsResolver where
  cache : Dict Bytes DnsCacheEntry
  cacheTtl : Int
  requests : List ResolveRequest
  now : Int

inductive Answer where
  | literal (addr : SockAddr)
  | cached (addr : SockAddr)
  | query
deriving DecidableEq

def kMaxCacheEntries : Nat := 1024

namespace DnsResolver

def init : DnsResolver := ⟨.empty, 60, [], 0⟩

/-- `ares_getaddrinfo` is called. -/
def query (s : DnsResolver) (host : Bytes) (port : Int) : Answer × DnsResolver :=
  (.query, { s with requests := ⟨port, host⟩ :: s.requests })

/-- `literal` is what `inet_pton` makes of an IP literal. -/
def resolve (s : DnsResolver) (literal : Bytes -> Option SockAddr) (enabled : Bool)
    (host : Bytes) (port : Int) : Answer × DnsResolver :=
  match literal host with
  | some addr => (.literal (addr.setAddrPort port), s)
  | none =>
    if enabled then
      match s.cache.find host with
      | none => s.query host port
      | some entry =>
        if s.now < entry.expiresAt then (.cached (entry.addr.setAddrPort port), s)
        else query { s with cache := s.cache.erase host } host port
    else s.query host port

/-- At capacity the entry that expires first is erased. -/
def evictOldest (cache : Dict Bytes DnsCacheEntry) : Dict Bytes DnsCacheEntry :=
  match cache.entries with
  | [] => cache
  | first :: rest =>
    if cache.entries.length >= kMaxCacheEntries then
      cache.erase (rest.foldl (fun oldest it =>
        if it.2.expiresAt < oldest.2.expiresAt then it else oldest) first).1
    else cache

/-- The locked part of `OnResolveComplete`. -/
def store (s : DnsResolver) (req : ResolveRequest) (node : AddrinfoNode) : DnsResolver :=
  let maxTtl := s.cacheTtl
  let ttl := if node.ttl > 0 then node.ttl else maxTtl
  let ttl := if ttl > maxTtl then maxTtl else ttl
  let addr := (node.addr.setAddrPort req.port).setAddrPort 0
  { s with cache := (evictOldest s.cache).insert req.hostname ⟨addr, s.now + ttl * 10 ^ 9⟩ }

/-- A failed lookup has no node. -/
def onResolveComplete (s : DnsResolver) (enabled : Bool) (req : ResolveRequest)
    (node : Option AddrinfoNode) : DnsResolver :=
  match node with
  | none => s
  | some node =>
    if node.addr.family = .other then s
    else if enabled && !req.hostname.isEmpty then s.store req node
    else s

def flushCache (s : DnsResolver) : DnsResolver := { s with cache := .empty }

def setCacheTtl (s : DnsResolver) (seconds : Int) : DnsResolver :=
  { s with cacheTtl := if seconds >= 0 then seconds else 0 }

end DnsResolver

inductive Action where
  | resolve (enabled : Bool) (host : Bytes) (port : Int)
  | complete (enabled : Bool) (req : ResolveRequest) (node : Option AddrinfoNode)
  | flushCache
  | setCacheTtl (seconds : Int)
  | advance (nanoseconds : Nat)

def system (literal : Bytes -> Option SockAddr) : System DnsResolver Action where
  init := .init
  step
    | .resolve enabled host port, s => some (s.resolve literal enabled host port).2
    | .complete enabled req node, s =>
      if req ∈ s.requests then
        some ({ s with requests := s.requests.erase req }.onResolveComplete enabled req node)
      else none
    | .flushCache, s => some s.flushCache
    | .setCacheTtl seconds, s => some (s.setCacheTtl seconds)
    | .advance nanoseconds, s => some { s with now := s.now + nanoseconds }

/-!
## Freshness
-/

/-- How many seconds an answer may be used. -/
def Completion.lifetime (c : Completion) : Int :=
  if c.node.ttl > 0 then min c.node.ttl c.maxTtl else c.maxTtl

/-- The entry comes from the completion. -/
structure Completion.Gives (c : Completion) (host : Bytes) (entry : DnsCacheEntry) : Prop where
  host_eq : c.host = host
  addr_eq : entry.addr = c.node.addr.setAddrPort 0
  expiresAt_eq : entry.expiresAt = c.time + c.lifetime * 10 ^ 9

/-- A successful completion in a run, after which the cache has not been flushed.  The run is
given by its actions with the states before them. -/
def SinceFlush (run : List (DnsResolver × Action)) (c : Completion) : Prop :=
  exists before s enabled req node after,
    run = before ++ (s, .complete enabled req (some node)) :: after ∧
    (forall x, x ∈ after -> x.2 ≠ .flushCache) ∧ node.addr.family ≠ .other ∧
    c = ⟨req.hostname, node, s.cacheTtl, s.now⟩

structure Fresh (run : List (DnsResolver × Action)) (s : DnsResolver) : Prop where
  bounded : s.cache.entries.length <= kMaxCacheEntries
  given : forall host entry, s.cache.find host = some entry ->
    exists c, SinceFlush run c ∧ c.Gives host entry

section

variable {s s' : DnsResolver} {cache : Dict Bytes DnsCacheEntry}
variable {run : List (DnsResolver × Action)}

theorem SinceFlush.more {c : Completion} (h : SinceFlush run c) {a : Action}
    (ha : a ≠ .flushCache) : SinceFlush (run ++ [(s, a)]) c := by
  rcases h with ⟨before, s1, enabled, req, node, after, rfl, hafter, hc⟩
  refine ⟨before, s1, enabled, req, node, after ++ [(s, a)], by simp, ?_, hc⟩
  intro x hx
  rcases mem_append.mp hx with hx | hx
  · exact hafter x hx
  · rw [mem_singleton.mp hx]
    exact ha

/-- A step that adds nothing to the cache. -/
theorem Fresh.more (h : Fresh run s) {a : Action} (ha : a ≠ .flushCache)
    (hlength : s'.cache.entries.length <= s.cache.entries.length)
    (hfind : forall {host entry}, s'.cache.find host = some entry ->
      s.cache.find host = some entry) : Fresh (run ++ [(s, a)]) s' := by
  refine ⟨hlength.trans h.bounded, fun host entry hentry => ?_⟩
  rcases h.given host entry (hfind hentry) with ⟨c, hc, hgives⟩
  exact ⟨c, hc.more ha, hgives⟩

theorem setAddrPort_setAddrPort (addr : SockAddr) (p q : Int) :
    (addr.setAddrPort p).setAddrPort q = addr.setAddrPort q := by
  rcases addr with ⟨family, port, fields, addrlen⟩
  cases family <;> rfl

theorem foldl_mem {A : Type} (pick : A -> A -> Bool) (rest : List A) (first : A) :
    rest.foldl (fun old it => if pick it old then it else old) first ∈ first :: rest := by
  induction rest generalizing first with
  | nil => exact mem_cons_self
  | cons it rest ih =>
    rw [foldl_cons]
    split
    · exact mem_cons_of_mem _ (ih it)
    · rcases mem_cons.mp (ih first) with heq | hmem
      · rw [heq]
        exact mem_cons_self
      · exact mem_cons_of_mem _ (mem_cons_of_mem _ hmem)

theorem length_evictOldest (hcache : cache.entries.length <= kMaxCacheEntries) :
    (DnsResolver.evictOldest cache).entries.length < kMaxCacheEntries := by
  unfold DnsResolver.evictOldest
  split
  case h_1 hnil =>
    rw [hnil]
    decide
  case h_2 first rest hentries =>
    split
    · have hmem := foldl_mem (fun it old => it.2.expiresAt < old.2.expiresAt) rest first
      simp only [decide_eq_true_eq, ← hentries] at hmem
      have hlength := length_erase (AssocList.find_of_mem cache.distinct hmem)
      omega
    case isFalse hroom => exact Nat.lt_of_not_le hroom

theorem find_evictOldest {host : Bytes} {entry : DnsCacheEntry}
    (hfind : (DnsResolver.evictOldest cache).find host = some entry) :
    cache.find host = some entry := by
  unfold DnsResolver.evictOldest at hfind
  split at hfind
  · exact hfind
  split at hfind
  · exact find_of_erase hfind
  · exact hfind

theorem Fresh.store (h : Fresh run s) (req : ResolveRequest) (node : AddrinfoNode)
    (hmem : SinceFlush run ⟨req.hostname, node, s.cacheTtl, s.now⟩) :
    Fresh run (s.store req node) := by
  constructor
  · exact (length_insert_le _ _ _).trans (length_evictOldest h.bounded)
  · intro host entry hfind
    change ((DnsResolver.evictOldest s.cache).insert _ _).find host = some entry at hfind
    rw [find_insert] at hfind
    split at hfind
    case isTrue heq =>
      cases hfind
      refine ⟨_, hmem, heq, setAddrPort_setAddrPort _ _ _, ?_⟩
      unfold Completion.lifetime
      dsimp only
      split <;> split <;> omega
    · exact h.given host entry (find_evictOldest hfind)

theorem Fresh.step {literal : Bytes -> Option SockAddr} (h : Fresh run s) (a : Action)
    (hstep : (system literal).step a s = some s') : Fresh (run ++ [(s, a)]) s' := by
  cases a with
  | resolve enabled host port =>
    cases hstep
    have hsame : Fresh (run ++ [(s, .resolve enabled host port)]) s :=
      h.more Action.noConfusion (Nat.le_refl _) id
    unfold DnsResolver.resolve
    split
    · exact hsame
    split
    · split
      · exact ⟨hsame.bounded, hsame.given⟩
      case h_2 entry hfind =>
        split
        · exact hsame
        have hlength := length_erase hfind
        exact h.more Action.noConfusion (by dsimp only [DnsResolver.query]; omega) find_of_erase
    exact ⟨hsame.bounded, hsame.given⟩
  | complete enabled req node =>
    rcases Option.ite_none_right_eq_some.mp hstep with ⟨_, hstep⟩
    cases hstep
    have hsame : forall requests : List ResolveRequest,
        Fresh (run ++ [(s, .complete enabled req node)]) { s with requests := requests } :=
      fun _ => h.more Action.noConfusion (Nat.le_refl _) id
    unfold DnsResolver.onResolveComplete
    cases node with
    | none => exact hsame _
    | some node =>
      dsimp only
      split
      · exact hsame _
      case isFalse hfamily =>
        split
        · refine (hsame _).store req node ?_
          exact ⟨run, s, enabled, req, node, [], rfl, forall_mem_nil _, hfamily, rfl⟩
        · exact hsame _
  | flushCache =>
    cases hstep
    exact ⟨Nat.zero_le _, fun host entry hfind => by cases hfind⟩
  | setCacheTtl seconds | advance nanoseconds =>
    cases hstep
    exact h.more Action.noConfusion (Nat.le_refl _) id

end

/-- The cache is bounded, and answers with addresses that were looked up after the last flush
and are still valid. -/
theorem dnsCache_bounded_and_fresh (literal : Bytes -> Option SockAddr) (actions : List Action)
    {s : DnsResolver} (hrun : (system literal).run actions .init = some s) :
    s.cache.entries.length <= 1024 ∧
    forall enabled host port addr, (s.resolve literal enabled host port).1 = .cached addr ->
      exists c, SinceFlush ((system literal).visits actions .init) c ∧ c.host = host ∧
        addr = c.node.addr.setAddrPort port ∧ s.now - c.time < c.lifetime * 10 ^ 9 := by
  have hinit : Fresh [] .init := ⟨Nat.zero_le _, fun host entry hfind => by cases hfind⟩
  have hfresh := (system literal).invariant_visits (P := Fresh) (Q := fun _ => True)
    (fun run s a s' h _ hstep => h.step a hstep) actions (fun _ _ => trivial) hinit hrun
  rw [nil_append] at hfresh
  refine ⟨hfresh.bounded, fun enabled host port addr hanswer => ?_⟩
  unfold DnsResolver.resolve at hanswer
  split at hanswer
  · cases hanswer
  split at hanswer
  case isFalse => cases hanswer
  split at hanswer
  · cases hanswer
  case h_2 entry hfind =>
    split at hanswer
    case isFalse => cases hanswer
    case isTrue hnow =>
      cases hanswer
      rcases hfresh.given host entry hfind with ⟨c, hc, hgives⟩
      refine ⟨c, hc, hgives.host_eq, ?_, ?_⟩
      · rw [hgives.addr_eq, setAddrPort_setAddrPort]
      · rw [hgives.expiresAt_eq] at hnow
        omega

/-- A lookup after a flush is answered, and the answer is used for the next one. -/
def lookedUp : List Action :=
  [.flushCache, .resolve true [97] 80,
    .complete true ⟨80, [97]⟩ (some ⟨⟨.inet, 0, [1, 2, 3, 4], 16⟩, 30⟩), .advance 5]

theorem dnsCache_lookedUp :
    exists s, (system fun _ => none).run lookedUp .init = some s ∧
      (s.resolve (fun _ => none) true [97] 443).1 =
        .cached ⟨.inet, 443, [1, 2, 3, 4], 16⟩ ∧
      exists c, SinceFlush ((system fun _ => none).visits lookedUp .init) c ∧ c.host = [97] ∧
        ⟨.inet, 443, [1, 2, 3, 4], 16⟩ = c.node.addr.setAddrPort 443 ∧
        s.now - c.time < c.lifetime * 10 ^ 9 := by
  have hrun : ((system fun _ => none).run lookedUp .init).map
      (fun s => (s.resolve (fun _ => none) true [97] 443).1) =
      some (.cached ⟨.inet, 443, [1, 2, 3, 4], 16⟩) := by
    decide +kernel
  rcases Option.map_eq_some_iff.mp hrun with ⟨s, hs, hanswer⟩
  exact ⟨s, hs, hanswer,
    (dnsCache_bounded_and_fresh _ lookedUp hs).right true [97] 443 _ hanswer⟩

end Async2.Dns
