import QNXStuff.Library.Execution
import QNXStuff.Library.Memory
import QNXStuff.QXMail.Text

/-! The cache of the DNS server: which slot a new response gets, and which record answers a
query. -/

namespace QNXStuff.QXDns

open Execution Memory
open QXMail (tolower)

/-- A `dns_buffer_t` as the main loop hands it to the threads: at least 17 bytes in an array of
512. -/
structure Message where
  pkt : Block
  datalen : Nat
  rcvtime : Int
  whole : 17 ≤ datalen
  fits : datalen ≤ 512

/-- `qxdns_cr_t` without its flags. -/
structure CacheRecord where
  expires : Int
  hits : UInt32
  datalen : Nat
  pkt : Block
  whole : 17 ≤ datalen
  fits : datalen ≤ 512

/-- `CacheMAX`, `CacheTTL`, the slots `CacheROOT` points to, and `CacheCount`. -/
structure Cache where
  max : Nat
  ttl : Int
  root : List (Option CacheRecord)
  count : Nat

/-- An empty slot is followed, or memory outside of an array is used. -/
inductive CacheFault where
  | null
  | outside
  deriving DecidableEq

def qxdnsCacheInit (cMax : Nat) (cTtl : Int) : Cache where
  max := cMax
  ttl := cTtl
  root := List.replicate cMax none
  count := 0

/-- `CacheROOT[i]`, to be followed. -/
def Cache.slot (cache : Cache) (i : Nat) : Except CacheFault CacheRecord :=
  match cache.root[i]? with
  | none => .error .outside
  | some none => .error .null
  | some (some record) => .ok record

/-- `CacheROOT[i] = record` -/
def Cache.setSlot (cache : Cache) (i : Nat) (record : CacheRecord) : Except CacheFault Cache :=
  if i < cache.root.length then .ok { cache with root := cache.root.set i (some record) }
  else .error .outside

/-! ### Adding a response -/

def intMax : UInt32 := 0x7fffffff

/-- `minhits`, `exp` and `index`; no index is -1. -/
structure Candidate where
  minhits : UInt32
  exp : Int
  index : Option Nat

/-- The candidate after a record that has not expired. -/
def Candidate.notice (best : Candidate) (i : Nat) (record : CacheRecord) : Candidate :=
  if record.hits ≤ best.minhits then
    if record.hits = best.minhits ∧ best.exp < record.expires then best
    else { minhits := record.hits, exp := record.expires, index := some i }
  else best

/-- "scan cache to find expired records": `i` and `index` behind the loop. -/
def Cache.scan (cache : Cache) (rcvtime : Int) :
    (turns i : Nat) → Candidate → Except CacheFault (Nat × Option Nat)
  | 0, i, best => .ok (i, best.index)
  | turns + 1, i, best => do
    let record ← cache.slot i
    if record.expires < rcvtime then .ok (i, some i)
    else cache.scan rcvtime turns (i + 1) (best.notice i record)

/-- The record of a response. `fresh` is what the allocated memory holds. -/
def Message.record (msg : Message) (ttl : Int) (fresh : Block) : CacheRecord where
  expires := msg.rcvtime + ttl
  hits := 1
  datalen := msg.datalen
  pkt := fun position => if position < msg.datalen then msg.pkt position else fresh position
  whole := msg.whole
  fits := msg.fits

def firstCandidate (rcvtime : Int) : Candidate where
  minhits := intMax
  exp := rcvtime + 172800
  index := none

/-- `qxdns_cache_add`; `fresh` is `none` when `malloc` fails. -/
def qxdnsCacheAdd (cache : Cache) (msg : Message) (fresh : Option Block) :
    Except CacheFault (Cache × Bool) :=
  match fresh with
  | none => .ok (cache, false)
  | some fresh => do
    let record := msg.record cache.ttl fresh
    let (i, index) ← cache.scan msg.rcvtime cache.count 0 (firstCandidate msg.rcvtime)
    if i = cache.count ∧ i < cache.max then
      let cache ← cache.setSlot i record
      .ok ({ cache with count := cache.count + 1 }, true)
    else
      match index with
      -- `CacheROOT[-1]`
      | none => .error .outside
      | some index =>
        let cache ← cache.setSlot index record
        .ok (cache, true)

/-! ### Looking for an answer -/

/-- `!stricmp( &first[position], &second[position] )`, of which `room` bytes belong to the
arrays. -/
def sameText (first second : Block) : (room position : Nat) → Except CacheFault Bool
  | 0, _ => .error .outside
  | room + 1, position =>
    if tolower (first position) ≠ tolower (second position) then .ok false
    else if first position = 0 then .ok true
    else sameText first second room (position + 1)

/-- The loop of the lookup: the first record in time with the text of the query. -/
def Cache.find (cache : Cache) (msg : Message) : (turns i : Nat) → Except CacheFault (Option Nat)
  | 0, _ => .ok none
  | turns + 1, i => do
    let record ← cache.slot i
    if record.expires < msg.rcvtime then cache.find msg turns (i + 1)
    else if ← sameText msg.pkt record.pkt 500 12 then .ok (some i)
    else cache.find msg turns (i + 1)

/-- The query with the bytes of the record behind its ID. -/
def Message.answered (msg : Message) (record : CacheRecord) : Message where
  pkt := fun position =>
    if 2 ≤ position ∧ position < record.datalen then record.pkt position else msg.pkt position
  datalen := record.datalen
  rcvtime := msg.rcvtime
  whole := record.whole
  fits := record.fits

def qxdnsCacheLookup (cache : Cache) (msg : Message) :
    Except CacheFault (Cache × Message × Bool) := do
  match ← cache.find msg cache.count 0 with
  | none => .ok (cache, msg, false)
  | some i =>
    let record ← cache.slot i
    let cache ← cache.setSlot i { record with hits := record.hits + 1 }
    .ok (cache, msg.answered record, true)

/-! ### Calls -/

inductive CacheCall where
  | add (msg : Message) (fresh : Option Block)
  | lookup (msg : Message)

inductive CacheAnswer where
  | added (done : Bool)
  | looked (msg : Message) (found : Bool)

def Cache.handle (cache : Cache) : CacheCall → Except CacheFault (Cache × CacheAnswer)
  | .add msg fresh =>
    (qxdnsCacheAdd cache msg fresh).map fun (cache, done) => (cache, .added done)
  | .lookup msg =>
    (qxdnsCacheLookup cache msg).map fun (cache, msg, found) => (cache, .looked msg found)

abbrev CacheLabel := CacheCall × CacheAnswer

/-- The calls, each with what it returns. -/
abbrev CacheStep : Cache → CacheLabel → Cache → Prop := Answers Cache.handle

end QNXStuff.QXDns
