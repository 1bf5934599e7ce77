import QNXStuff.Library.LinkedList
import QNXStuff.Library.Ownership

/-! The lists the DNS server keeps its message buffers in: the free buffers, the filled
ones and the queue of outstanding queries, all linked through the same fields. -/

namespace QNXStuff.QXDns

open LinkedList Ownership

/-- The address of a buffer. -/
abbrev BufRef := Nat

/-- The two lists that are used as stackRefs. -/
inductive Stack where
  | freeBuf
  | readyBuf
  deriving DecidableEq

/-- The pointers of the server: `queue_head` and `queue_tail` with the fields `next` and
`prev` of all buffers, the tops of the two stackRefs, and the buffer `malloc` hands out next. -/
structure BufferLists where
  links : Links BufRef
  top : Stack → Option BufRef
  fresh : BufRef

namespace BufferLists

def setNext (lists : BufferLists) (ref : BufRef) (target : Option BufRef) : BufferLists :=
  { lists with
    links := { lists.links with next := Function.update lists.links.next ref target } }

def setPrev (lists : BufferLists) (ref : BufRef) (target : Option BufRef) : BufferLists :=
  { lists with
    links := { lists.links with prev := Function.update lists.links.prev ref target } }

def setTop (lists : BufferLists) (stack : Stack) (target : Option BufRef) : BufferLists :=
  { lists with top := Function.update lists.top stack target }

/-- `ref->next = top; top = ref;` -/
def push (lists : BufferLists) (stack : Stack) (ref : BufRef) : BufferLists :=
  (lists.setNext ref (lists.top stack)).setTop stack (some ref)

/-- `ref = top; if( ref != NULL ) top = ref->next;` -/
def pop (lists : BufferLists) (stack : Stack) : Option BufRef × BufferLists :=
  match lists.top stack with
  | none => (none, lists)
  | some ref => (some ref, lists.setTop stack (lists.links.next ref))

/-- `malloc( sizeof(dns_buffer_t) )` -/
def malloc (lists : BufferLists) : BufRef × BufferLists :=
  (lists.fresh, { lists with fresh := lists.fresh + 1 })

/-- What `memset( ref, 0, sizeof(dns_buffer_t) )` does to the links. -/
def clear (lists : BufferLists) (ref : BufRef) : BufferLists :=
  (lists.setNext ref none).setPrev ref none

/-- The response handler and the expiry pass take a query out of the queue. -/
def unlinkQuery (lists : BufferLists) (ref : BufRef) : BufferLists :=
  let links := lists.links.redirectNext (lists.links.prev ref) (lists.links.next ref)
  { lists with links := links.redirectPrev (links.next ref) (links.prev ref) }

/-- "if we need to add request to queue - do it" -/
def appendQuery (lists : BufferLists) (ref : BufRef) : BufferLists :=
  { lists with links := lists.links.append ref }

end BufferLists

/-- Where a buffer may be: in one of the three lists, or known only to the main loop or
to a worker. `pending` are the queries a worker is going to put into the queue. -/
inductive Owner where
  | queue
  | stack (stack : Stack)
  | main
  | worker (thread : Nat)
  | pending (thread : Nat)
  deriving DecidableEq

/-- A thread that works on a buffer no list contains. -/
def Owner.Local : Owner → Prop
  | .queue => False
  | .stack _ => False
  | _ => True

/-- The three lists are well formed, they share no buffer with each other or with a thread,
and the queries that will enter the queue have no successor. -/
structure BufferLists.Sound (lists : BufferLists) (regions : Owner → List BufRef) : Prop where
  separate : Separate regions
  allocated : ∀ owner, ∀ ref ∈ regions owner, ref < lists.fresh
  queue : lists.links.Represents (regions .queue)
  stackRefs : ∀ stack, Chain lists.links.next (lists.top stack) (regions (.stack stack))
  pending : ∀ thread, ∀ ref ∈ regions (.pending thread), lists.links.next ref = none

namespace BufferLists.Sound

variable {lists : BufferLists} {regions regions' : Owner → List BufRef} {ref : BufRef}
  {giver taker : Owner}

theorem allocated_passes (sound : lists.Sound regions)
    (passes : Passes giver taker ref regions regions') :
    ∀ owner, ∀ other ∈ regions' owner, other < lists.fresh := by
  intro owner other member
  rcases passes.mem_after sound.separate member with ⟨rfl, -⟩ | ⟨-, earlier⟩
  · exact sound.allocated giver other passes.given_mem
  · exact sound.allocated owner other earlier

theorem outside_queue (sound : lists.Sound regions) {owner : Owner} (member : ref ∈ regions owner)
    (elsewhere : owner ≠ .queue) : ref ∉ regions .queue := fun queued =>
  elsewhere (sound.separate.single member queued)

/-- The top of a stack is its first buffer. -/
theorem top_eq (sound : lists.Sound regions) (stack : Stack) :
    lists.top stack = (regions (.stack stack)).head? := (sound.stackRefs stack).head_eq

/-- A thread passes a buffer on to itself or puts it aside for the queue. -/
theorem hand (sound : lists.Sound regions) (passes : Passes giver taker ref regions regions')
    (own : giver.Local) (own' : taker.Local)
    (ends : ∀ thread, taker = .pending thread → lists.links.next ref = none) :
    lists.Sound regions' where
  separate := passes.separate sound.separate
  allocated := sound.allocated_passes passes
  queue := by
    rw [passes.kept .queue (by rintro rfl; exact own) (by rintro rfl; exact own')]
    exact sound.queue
  stackRefs stack := by
    rw [passes.kept (.stack stack) (by rintro rfl; exact own) (by rintro rfl; exact own')]
    exact sound.stackRefs stack
  pending thread other member := by
    rcases passes.mem_after sound.separate member with ⟨rfl, here⟩ | ⟨-, earlier⟩
    · exact ends thread here.symm
    · exact sound.pending thread other earlier

/-- A thread writes the links of a buffer of its own. -/
theorem write (sound : lists.Sound regions) {owner : Owner} (own : owner.Local)
    (member : ref ∈ regions owner) (links : Links BufRef)
    (head : links.head = lists.links.head) (tail : links.tail = lists.links.tail)
    (next : ∀ other, other ≠ ref → links.next other = lists.links.next other)
    (prev : ∀ other, other ≠ ref → links.prev other = lists.links.prev other)
    (ends : ∀ thread, owner = .pending thread → links.next ref = none) :
    ({ lists with links := links } : BufferLists).Sound regions where
  separate := sound.separate
  allocated := sound.allocated
  queue := by
    have apart : ∀ other ∈ regions .queue, other ≠ ref := by
      rintro other queued rfl
      cases sound.separate.single queued member
      exact own
    exact sound.queue.congr head tail (fun other queued => next other (apart other queued))
      fun other queued => prev other (apart other queued)
  stackRefs stack := by
    have apart : ∀ other ∈ regions (.stack stack), other ≠ ref := by
      rintro other stacked rfl
      cases sound.separate.single stacked member
      exact own
    exact (sound.stackRefs stack).congr fun other stacked => next other (apart other stacked)
  pending thread other waiting := by
    by_cases same : other = ref
    · subst same
      exact ends thread (sound.separate.single member waiting)
    · show links.next other = none
      rw [next other same]
      exact sound.pending thread other waiting

theorem clear (sound : lists.Sound regions) {owner : Owner} (own : owner.Local)
    (member : ref ∈ regions owner) : (lists.clear ref).Sound regions :=
  sound.write own member (lists.clear ref).links rfl rfl
    (fun _ apart => Function.update_of_ne apart ..) (fun _ apart => Function.update_of_ne apart ..)
    (fun _ _ => Function.update_self ..)

theorem endNext (sound : lists.Sound regions) {owner : Owner} (own : owner.Local)
    (member : ref ∈ regions owner) : (lists.setNext ref none).Sound regions :=
  sound.write own member (lists.setNext ref none).links rfl rfl
    (fun _ apart => Function.update_of_ne apart ..) (fun _ _ => rfl)
    (fun _ _ => Function.update_self ..)

/-- A thread puts a buffer of its own on a stack. -/
theorem push (sound : lists.Sound regions) {stack : Stack}
    (passes : Passes giver (.stack stack) ref regions regions') (own : giver.Local)
    (front : regions' (.stack stack) = ref :: regions (.stack stack)) :
    (lists.push stack ref).Sound regions' where
  separate := passes.separate sound.separate
  allocated := sound.allocated_passes passes
  queue := by
    have kept := passes.kept .queue (by rintro rfl; exact own) nofun
    rw [kept]
    refine sound.queue.congr rfl rfl (fun other queued => ?_) (fun _ _ => rfl)
    rw [← kept] at queued
    exact Function.update_of_ne (passes.ne_of_mem sound.separate queued nofun) ..
  stackRefs other := by
    by_cases here : other = stack
    · subst here
      have outside : ref ∉ regions (.stack other) := fun member =>
        passes.apart (sound.separate.single passes.given_mem member)
      rw [front]
      simpa [BufferLists.push, setTop, setNext] using (sound.stackRefs other).push outside
    · have apart : Owner.stack other ≠ .stack stack := fun same => here (Owner.stack.inj same)
      have kept := passes.kept (.stack other) (by rintro rfl; exact own) apart
      rw [kept]
      have same : (lists.push stack ref).top other = lists.top other :=
        Function.update_of_ne here ..
      rw [same]
      refine (sound.stackRefs other).congr fun waiting member => ?_
      rw [← kept] at member
      exact Function.update_of_ne (passes.ne_of_mem sound.separate member apart) ..
  pending thread other waiting := by
    have apart := passes.ne_of_mem sound.separate waiting nofun
    rcases passes.mem_after sound.separate waiting with ⟨same, -⟩ | ⟨-, earlier⟩
    · exact absurd same apart
    · exact (Function.update_of_ne apart ..).trans (sound.pending thread other earlier)

/-- A thread takes the first buffer of a stack. -/
theorem pop (sound : lists.Sound regions) {stack : Stack}
    (passes : Passes (.stack stack) taker ref regions regions') (own : taker.Local)
    (settled : ∀ thread, taker ≠ .pending thread)
    (front : regions (.stack stack) = ref :: regions' (.stack stack)) :
    (lists.setTop stack (lists.links.next ref)).Sound regions' where
  separate := passes.separate sound.separate
  allocated := sound.allocated_passes passes
  queue := by
    rw [passes.kept .queue nofun (by rintro rfl; exact own)]
    exact sound.queue
  stackRefs other := by
    by_cases here : other = stack
    · subst here
      have walked := sound.stackRefs other
      rw [front] at walked
      have top : (lists.setTop other (lists.links.next ref)).top other = lists.links.next ref :=
        Function.update_self ..
      rw [top]
      exact walked.2
    · have apart : Owner.stack other ≠ .stack stack := fun same => here (Owner.stack.inj same)
      have top : (lists.setTop stack (lists.links.next ref)).top other = lists.top other :=
        Function.update_of_ne here ..
      rw [passes.kept (.stack other) apart (by rintro rfl; exact own), top]
      exact sound.stackRefs other
  pending thread other waiting := by
    rcases passes.mem_after sound.separate waiting with ⟨-, here⟩ | ⟨-, earlier⟩
    · exact absurd here.symm (settled thread)
    · exact sound.pending thread other earlier

theorem malloc (sound : lists.Sound regions) (joins : Joins taker lists.fresh regions regions')
    (own : taker.Local) (settled : ∀ thread, taker ≠ .pending thread) :
    lists.malloc.2.Sound regions' where
  separate := joins.separate sound.separate fun owner member =>
    Nat.lt_irrefl _ (sound.allocated owner lists.fresh member)
  allocated owner other member := by
    rcases joins.mem_after member with ⟨rfl, -⟩ | earlier
    · exact Nat.lt_succ_self _
    · exact Nat.lt_succ_of_lt (sound.allocated owner other earlier)
  queue := by
    rw [joins.kept .queue (by rintro rfl; exact own)]
    exact sound.queue
  stackRefs stack := by
    rw [joins.kept (.stack stack) (by rintro rfl; exact own)]
    exact sound.stackRefs stack
  pending thread other waiting := by
    rw [joins.kept (.pending thread) (settled thread).symm] at waiting
    exact sound.pending thread other waiting

/-- In a well-formed queue the assignments of the source join the neighbours. -/
theorem unlinkQuery_links (sound : lists.Sound regions) (member : ref ∈ regions .queue) :
    (lists.unlinkQuery ref).links = lists.links.unlink ref := by
  obtain ⟨front, back, split⟩ := List.append_of_mem member
  have list := sound.queue
  rw [split] at list
  have outside : ref ∉ front := fun earlier =>
    List.disjoint_of_nodup_append list.nodup earlier List.mem_cons_self
  have next : (lists.links.redirectNext (lists.links.prev ref) (lists.links.next ref)).next ref =
      lists.links.next ref := by
    have kept := list.unlink_next outside
    rwa [Links.unlink, Links.redirectPrev_next] at kept
  simp only [unlinkQuery, Links.redirectNext_prev, next]
  rfl

/-- A thread takes a query out of the queue. A query it is going to put back must have
been the last one. -/
theorem unlinkQuery (sound : lists.Sound regions)
    (passes : Passes .queue taker ref regions regions') (own : taker.Local)
    (ends : ∀ thread, taker = .pending thread → lists.links.next ref = none)
    {front back : List BufRef} (before : regions .queue = front ++ ref :: back)
    (after : regions' .queue = front ++ back) :
    (lists.unlinkQuery ref).Sound regions' := by
  have list := sound.queue
  rw [before] at list
  have links := sound.unlinkQuery_links passes.given_mem
  -- `next` changes only in front of the query
  have kept : ∀ other, other ∉ front → (lists.unlinkQuery ref).links.next other =
      lists.links.next other := by
    intro other outside
    rw [links]
    exact list.unlink_next outside
  have outside : ∀ {owner other}, other ∈ regions owner → owner ≠ .queue → other ∉ front := by
    intro owner other member elsewhere queued
    refine sound.outside_queue member elsewhere ?_
    rw [before]
    exact List.mem_append_left _ queued
  refine ⟨passes.separate sound.separate, sound.allocated_passes passes, ?_, ?_, ?_⟩
  · rw [links, after]
    exact list.unlink
  · intro stack
    have same := passes.kept (.stack stack) nofun (by rintro rfl; exact own)
    rw [same]
    exact (sound.stackRefs stack).congr fun other member => kept other (outside member nofun)
  · intro thread other waiting
    rcases passes.mem_after sound.separate waiting with ⟨rfl, here⟩ | ⟨-, earlier⟩
    · have away : other ∉ front := fun queued =>
        List.disjoint_of_nodup_append list.nodup queued List.mem_cons_self
      exact (kept other away).trans (ends thread here.symm)
    · exact (kept other (outside earlier nofun)).trans (sound.pending thread other earlier)

/-- A worker puts a query at the end of the queue. -/
theorem appendQuery (sound : lists.Sound regions) {thread : Nat}
    (passes : Passes (.pending thread) .queue ref regions regions')
    (after : regions' .queue = regions .queue ++ [ref]) :
    (lists.appendQuery ref).Sound regions' := by
  refine ⟨passes.separate sound.separate, sound.allocated_passes passes, ?_, ?_, ?_⟩
  · rw [after]
    exact sound.queue.append (sound.outside_queue passes.given_mem nofun)
      (sound.pending thread ref passes.given_mem)
  · intro stack
    rw [passes.kept (.stack stack) nofun nofun]
    exact (sound.stackRefs stack).congr fun other member =>
      sound.queue.append_next (sound.outside_queue member nofun)
  · intro other waiting member
    rcases passes.mem_after sound.separate member with ⟨-, here⟩ | ⟨-, earlier⟩
    · cases here
    · exact (sound.queue.append_next (sound.outside_queue earlier nofun)).trans
        (sound.pending other waiting earlier)

end BufferLists.Sound

end QNXStuff.QXDns
