import LibSafetynet.BlockOwnership

/-!
# The registry: what the library is for

The library as its clients see it: a registry of blocks over an allocator, without
nodes, slots, weights or mutexes. This is a statement of purpose, not a translation;
`RegistrySpec.lean` compares the code with it, operation by operation.

- `Registry.step` is one operation: its reply, and the registry afterwards.
- `Oracle` is what the registry leaves open: what uninitialised memory contains, which
  block the cache answers for, the marks on a node, and the files. A function that asks
  the cache first answers with its default when the cache does not.
- `Registry.Change` lists everything an operation can do to the memory and the entries.
- `Registry.Allows` is what a client has to see to, and `Registry.Consistent` what it
  gets for it: every entry is for an allocated block of its own (`Change.consistent`).
-/

namespace LibSafetynet

open Logic ListState

/-! ## Blocks that back the records -/

/-- Each record is of an allocated block of its own, which is at least as long. -/
structure Backed (h : ClientHeap) (rs : List Record) : Prop where
  wellFormed : h.WellFormed
  nodup : (rs.map Prod.fst).Nodup
  live : ∀ r ∈ rs, h.Live r.1
  size : ∀ r ∈ rs, r.2.toNat ≤ (h.bytes r.1).length

section Backed

variable {h h' : ClientHeap} {rs rs' : List Record} {r q : Record} {bs : List UInt8} {p : Addr}

theorem backed_empty : Backed ⟨∅, []⟩ [] :=
  ⟨ClientHeap.wellFormed_empty, List.nodup_nil, by simp, by simp⟩

theorem Backed.perm (hb : Backed h rs) (hperm : rs.Perm rs') : Backed h rs' := by
  refine ⟨hb.wellFormed, (hperm.map Prod.fst).nodup_iff.mp hb.nodup, ?_, ?_⟩
  · exact fun r hr => hb.live r (hperm.mem_iff.mpr hr)
  · exact fun r hr => hb.size r (hperm.mem_iff.mpr hr)

theorem Backed.congr (hb : Backed h rs) (hblocks : h'.blocks = h.blocks) : Backed h' rs := by
  refine ⟨hb.wellFormed.congr hblocks, hb.nodup, fun r hr => ?_, fun r hr => ?_⟩
  · exact (ClientHeap.Live.congr hblocks _).mpr (hb.live r hr)
  · rw [ClientHeap.bytes_congr hblocks]
    exact hb.size r hr

/-- A new block, which need not be recorded. -/
theorem Backed.place (hb : Backed h rs) (ha : h.Admits p bs.length) :
    Backed (h.place p bs) rs := by
  have hne : ∀ r ∈ rs, r.1 ≠ p := fun r hr heq => ha.not_live (heq ▸ hb.live r hr)
  refine ⟨hb.wellFormed.place ha, hb.nodup, fun r hr => ?_, fun r hr => ?_⟩
  · exact ClientHeap.live_place.mpr (Or.inr (hb.live r hr))
  · rw [ClientHeap.bytes_place_of_ne (hne r hr)]
    exact hb.size r hr

/-- The record of an allocated block that has none yet. -/
theorem Backed.cons (hb : Backed h rs) (hnew : r.1 ∉ rs.map Prod.fst) (hlive : h.Live r.1)
    (hsize : r.2.toNat ≤ (h.bytes r.1).length) : Backed h (r :: rs) := by
  refine ⟨hb.wellFormed, ?_, ?_, ?_⟩
  · rw [List.map_cons]
    exact List.nodup_cons.mpr ⟨hnew, hb.nodup⟩
  · exact List.forall_mem_cons.mpr ⟨hlive, hb.live⟩
  · exact List.forall_mem_cons.mpr ⟨hsize, hb.size⟩

theorem Backed.tail (hb : Backed h (r :: rs)) : r.1 ∉ rs.map Prod.fst ∧ Backed h rs := by
  obtain ⟨hnew, hnodup⟩ := List.nodup_cons.mp hb.nodup
  refine ⟨hnew, hb.wellFormed, hnodup, ?_, ?_⟩
  · exact fun q hq => hb.live q (List.mem_cons_of_mem _ hq)
  · exact fun q hq => hb.size q (List.mem_cons_of_mem _ hq)

theorem Backed.allocate (hb : Backed h rs) (ha : h.Admits r.1 bs.length)
    (hsize : r.2.toNat ≤ bs.length) : Backed (h.place r.1 bs) (r :: rs) := by
  refine (hb.place ha).cons (fun hmem => ?_) (ClientHeap.live_place.mpr (Or.inl rfl)) ?_
  · obtain ⟨q, hq, heq⟩ := List.mem_map.mp hmem
    exact ha.not_live (heq ▸ hb.live q hq)
  · rw [ClientHeap.bytes_place_self]
    exact hsize

/-- A block without a record is freed. -/
theorem Backed.drop (hb : Backed h rs) (hp : p ∉ rs.map Prod.fst) : Backed (h.drop p) rs := by
  have hne : ∀ r ∈ rs, r.1 ≠ p := fun r hr heq => hp (heq ▸ List.mem_map_of_mem hr)
  refine ⟨hb.wellFormed.drop p, hb.nodup, fun r hr => ?_, fun r hr => ?_⟩
  · exact ClientHeap.live_drop.mpr ⟨hne r hr, hb.live r hr⟩
  · rw [ClientHeap.bytes_drop_of_ne (hne r hr)]
    exact hb.size r hr

theorem Backed.release (hb : Backed h (r :: rs)) : Backed (h.drop r.1) rs :=
  hb.tail.2.drop hb.tail.1

theorem Backed.write (hb : Backed h rs) (hlive : h.Live p)
    (hlen : bs.length = (h.bytes p).length) : Backed (h.place p bs) rs := by
  refine ⟨hb.wellFormed.write hlive hlen, hb.nodup, fun r hr => ?_, fun r hr => ?_⟩
  · exact ClientHeap.live_place.mpr (Or.inr (hb.live r hr))
  · by_cases hrp : r.1 = p
    · rw [hrp, ClientHeap.bytes_place_self, hlen, ← hrp]
      exact hb.size r hr
    · rw [ClientHeap.bytes_place_of_ne hrp]
      exact hb.size r hr

end Backed

/-! ## The registry -/

/-- What a client knows of a tracked block. -/
structure TrackedBlock where
  data : Addr
  size : UInt64
  tid : UInt64
  blockId : UInt16
  deriving DecidableEq

/-- The record of a tracked block. -/
def TrackedBlock.record (t : TrackedBlock) : Record := (t.data, t.size)

/-- The memory, the tracked blocks in the order of their allocation, and the counters. -/
structure Registry where
  heap : ClientHeap
  entries : List TrackedBlock
  usage : UInt64
  limit : UInt64
  error : SnErrorCodes

/-- What an operation returns to its caller. -/
inductive Reply where
  | none
  | addr (p : Addr)
  | size (n : UInt64)
  | blockId (id : UInt16)
  | flag (b : Bool)
  | error (err : SnErrorCodes)
  deriving DecidableEq

/-- What the registry leaves open. -/
structure Oracle where
  /-- What the memory of a new block contains. -/
  junk : Nat → UInt8
  /-- The block the cache answers for. -/
  cached : Option Addr
  /-- Whether the cache takes a block in. -/
  accepts : Bool
  /-- The `cached` flag and the weight of a node. -/
  marked : Bool
  weight : UInt8
  files : FileName → Option (List UInt8)

/-- The contents of `n` bytes of new memory. -/
def Oracle.fresh (o : Oracle) (n : Nat) : List UInt8 := (List.range n).map o.junk

/-- `sn_mem_metadata_t` of a block, in bytes. -/
def Oracle.metadata (o : Oracle) (t : TrackedBlock) : List UInt8 :=
  metadataBytes ⟨NULL, t.data, t.size, t.tid, o.marked, t.blockId, false, o.weight, .null, NULL⟩

/-- The operations that change the entry for `p` or the bytes of its block. -/
def Op.Alters (p : Addr) : Op → Prop
  | .free q | .realloc q _ | .setBlockId q _ | .clientFree q | .clientWrite q _ => q = p
  | _ => False

namespace Registry

/-- Nothing is allocated yet. -/
def empty : Registry := ⟨⟨∅, []⟩, [], 0, memmanNoAllocLimit, .snErrOk⟩

variable (R : Registry)

/-- The entry for `p`. -/
def find? (p : Addr) : Option TrackedBlock := R.entries.find? (·.data = p)

/-- The limit stands in the way of `size` more bytes. -/
def Refuses (size : UInt64) : Prop := R.limit ≠ memmanNoAllocLimit ∧ R.limit ≤ R.usage + size

instance (size : UInt64) : Decidable (R.Refuses size) := inferInstanceAs (Decidable (_ ∧ _))

/-- Only the error code changes. -/
def fail (err : SnErrorCodes) (r : Reply) : Reply × Registry := (r, { R with error := err })

/-- A new entry at the end. -/
def push (data : Addr) (size tid : UInt64) : Registry :=
  { R with entries := R.entries ++ [⟨data, size, tid, 0⟩] }

/-- A block of these bytes, recorded as `size` and counted as `charge`. -/
def allocate (env : Env) (size charge : UInt64) (bytes : List UInt8) : Reply × Registry :=
  if R.Refuses charge then R.fail .snErrAllocLimitHit (.addr NULL)
  else if R.heap.Admits env.block bytes.length then
    (.addr env.block, { R.push env.block size env.tid with
      heap := R.heap.place env.block bytes
      usage := R.usage + charge })
  else R.fail .snErrBadAlloc (.addr NULL)

/-- `sn_malloc` of memory that comes with these bytes. -/
def malloc (env : Env) (bytes : List UInt8) (size : UInt64) : Reply × Registry :=
  if size = 0 then R.fail .snErrBadSize (.addr NULL) else R.allocate env size size bytes

/-- The entry for `ptr` is rewritten. -/
def rewrite (ptr : Addr) (f : TrackedBlock → TrackedBlock) : Registry :=
  { R with entries := R.entries.map fun t => if t.data = ptr then f t else t }

/-- `sn_realloc` -/
def realloc (env : Env) (o : Oracle) (ptr : Addr) (newSize : UInt64) : Reply × Registry :=
  if ptr = NULL then R.fail .snErrNullPtr (.addr NULL)
  else match R.find? ptr with
  | none => R.fail .snErrNoAdderFound (.addr NULL)
  | some t =>
    if newSize = 0 then R.fail .snErrBadSize (.addr NULL)
    else if t.size < newSize ∧ R.Refuses (newSize - t.size) then
      R.fail .snErrAllocLimitHit (.addr NULL)
    else if (R.heap.drop ptr).Admits env.block newSize.toNat then
      let old := R.heap.bytes ptr
      let bytes := (old ++ o.fresh (newSize.toNat - old.length)).take newSize.toNat
      (.addr env.block,
        { R.rewrite ptr fun t => { t with data := env.block, size := newSize } with
          heap := (R.heap.drop ptr).place env.block bytes
          usage := R.usage - t.size + newSize })
    else R.fail .snErrBadAlloc (.addr NULL)

/-- `sn_free` -/
def free (cfg : Config) (ptr : Addr) : Reply × Registry :=
  if ptr = NULL then R.fail .snErrNullPtr .none
  else match R.find? ptr with
  | none => R.fail .snErrNoAdderFound .none
  | some t =>
    (.none, { R with
      heap :=
        { blocks := R.heap.blocks.erase ptr
          freed := R.heap.freed ++ [(ptr, sanitized cfg t.size (R.heap.bytes ptr))] }
      entries := R.entries.eraseP (·.data = ptr)
      usage := R.usage - t.size })

/-- The lookup of the functions that ask the cache first: `dflt` unless it answers. -/
def answer (o : Oracle) (ptr : Addr) (dflt : Reply) (f : TrackedBlock → Reply × Registry) :
    Reply × Registry :=
  if ptr = NULL then R.fail .snErrNullPtr dflt
  else match R.find? ptr with
  | none => R.fail .snErrNoAdderFound dflt
  | some t => if o.cached = some ptr then f t else (dflt, R)

/-- `sn_query_block_id`, which finds blocks in the cache only. -/
def queryBlockId (o : Oracle) (id : UInt16) : Reply × Registry :=
  if id = 0 then R.fail .snErrBadBlockId (.addr NULL)
  else match R.entries.find? fun t => o.cached = some t.data ∧ t.blockId = id with
  | some t => (.addr t.data, R)
  | none =>
    if ∃ t ∈ R.entries, t.blockId = id then (.addr NULL, R)
    else R.fail .snErrNoAdderFound (.addr NULL)

/-- `sn_calculate_checksum` -/
def calculateChecksum (o : Oracle) (block : Addr) : Reply × Registry :=
  R.answer o block (.size 0) fun t =>
    if t.size = 0 then R.fail .snErrBadSize (.size 0)
    else (.size (checksumBytes ((R.heap.bytes block).take t.size.toNat)), R)

/-- `sn_dump_to_file`; what is written is not the registry's. -/
def dumpToFile (env : Env) (o : Oracle) (file : Option FileName) (block : Addr) :
    Reply × Registry :=
  match file with
  | none => R.fail .snErrNullPtr (.flag false)
  | some path =>
    if block ≠ NULL ∧ env.fopenOk 0 = true ∧ (o.files path).isSome then
      R.fail .snErrFilePreExist (.flag false)
    else
      R.answer o block (.flag false) fun t =>
        if env.fopenOk 1 = true ∧ t.size.toNat ≤ env.transferred then (.flag true, R)
        else R.fail .snErrFileIo (.flag false)

/-- `sn_mount_file_to_ram`. A file that is not read to its end leaves only a freed block. -/
def mountFileToRam (cfg : Config) (env : Env) (o : Oracle) (file : Option FileName) :
    Reply × Registry :=
  match file with
  | none => R.fail .snErrNullPtr (.addr NULL)
  | some path =>
    match if env.fopenOk 0 then o.files path else none with
    | none => R.fail .snErrFileNotExist (.addr NULL)
    | some content =>
      let size := UInt64.ofNat content.length
      if ¬ env.fopenOk 1 then R.fail .snErrFileIo (.addr NULL)
      else if size = 0 then R.fail .snErrBadSize (.addr NULL)
      else if env.transferred < size.toNat then
        let bytes := content.take env.transferred ++ (o.fresh size.toNat).drop env.transferred
        let freed := R.heap.freed ++ [(env.block, sanitized cfg size bytes)]
        Registry.fail { R with heap := { R.heap with freed } } .snErrFileIo (.addr NULL)
      else R.allocate env size size (content.take size.toNat)

/-- The bytes tracked for one thread. -/
def threadUsage (tid : UInt64) : UInt64 :=
  R.entries.foldl (fun siz t => if t.tid = tid then siz + t.size else siz) 0

/-- **One operation**: its reply, and the registry afterwards. -/
def step (cfg : Config) (env : Env) (o : Oracle) : Op → Reply × Registry
  | .malloc size => R.malloc env (o.fresh size.toNat) size
  | .calloc num size =>
    if size = 0 ∨ num = 0 then R.fail .snErrBadSize (.addr NULL)
    else R.allocate env size (size * num) (List.replicate (num.toNat * size.toNat) 0)
  | .realloc ptr newSize => R.realloc env o ptr newSize
  | .mallocPreInitialized size v => R.malloc env (List.replicate size.toNat v) size
  | .free ptr => R.free cfg ptr
  | .register ptr => (.addr ptr, R.push ptr 0 env.tid)
  | .registerSize ptr size =>
    if ptr = NULL then R.fail .snErrNullPtr (.addr NULL)
    else if size = 0 then R.fail .snErrBadSize (.addr NULL)
    else if (R.find? ptr).isSome then (.addr ptr, R)
    else (.addr ptr, R.push ptr size env.tid)
  | .querySize ptr =>
    -- the one query that does not ask the cache
    if ptr = NULL then R.fail .snErrNullPtr (.size 0)
    else match R.find? ptr with
    | none => R.fail .snErrNoAdderFound (.size 0)
    | some t => (.size t.size, R)
  | .queryTid ptr => R.answer o ptr (.size 0) fun t => (.size t.tid, R)
  | .isTrackedBlock ptr =>
    if ptr = NULL then R.fail .snErrNullPtr (.flag false) else (.flag true, R)
  | .setBlockId block id =>
    if block ≠ NULL ∧ id ≤ 20 then R.fail .snErrBadBlockId .none
    else R.answer o block .none fun _ => (.none, R.rewrite block fun t => { t with blockId := id })
  | .getBlockId block => R.answer o block (.blockId 0) fun t => (.blockId t.blockId, R)
  | .queryBlockId id => R.queryBlockId o id
  | .queryMetadata ptr => R.answer o ptr (.flag false) fun _ => (.flag true, R)
  | .queryStaticMetadata ptr =>
    R.answer o ptr (.addr NULL) fun t => R.malloc env (o.metadata t) sizeofSnMemMetadata
  | .setAllocLimit limit => (.none, { R with limit })
  | .queryThreadMemoryUsage tid => (.size (R.threadUsage tid), R)
  | .queryTotalMemoryUsage => (.size R.usage, R)
  | .calculateChecksum block => R.calculateChecksum o block
  | .requestToFastCache ptr =>
    if ptr = NULL then R.fail .snErrNullPtr (.flag false)
    else match R.find? ptr with
    | none => R.fail .snErrNoAdderFound (.flag false)
    | some _ => (.flag o.accepts, R)
  | .dumpToFile file block => R.dumpToFile env o file block
  | .mountFileToRam file => R.mountFileToRam cfg env o file
  | .getLastError => (.error R.error, R)
  | .resetLastError => (.none, { R with error := .snErrOk })
  | .clientMalloc size =>
    if R.heap.Admits env.block size.toNat then
      (.addr env.block, { R with heap := R.heap.place env.block (o.fresh size.toNat) })
    else (.addr NULL, R)
  | .clientFree ptr =>
    if ptr = NULL then (.none, R) else (.none, { R with heap := R.heap.drop ptr })
  | .clientWrite ptr bytes =>
    if bytes = [] then (.none, R)
    else (.none, { R with
      heap := R.heap.place ptr (bytes ++ (R.heap.bytes ptr).drop bytes.length) })
  | .doAutoFreeAtExit _ | .memMetadataForEach _ _ | .lockFastCache | .unlockFastCache
  | .doFastCaching _ | .fastCacheClear => (.none, R)

/-! ## What a client has to see to, and what it gets -/

/-- The addresses and sizes of the entries. -/
def records : List Record := R.entries.map TrackedBlock.record

/-- Every entry is for an allocated block of its own. -/
def Consistent : Prop := Backed R.heap R.records

/-- A block is registered once, with bytes that are there, and the client keeps its hands
off tracked blocks and off memory that is not its own. -/
def Allows : Op → Prop
  | .register p => R.heap.Live p ∧ R.find? p = none
  | .registerSize p size => p = NULL ∨ size = 0 ∨ (R.find? p).isSome ∨
      R.heap.Live p ∧ size.toNat ≤ (R.heap.bytes p).length
  | .clientFree p => p = NULL ∨ R.heap.Live p ∧ R.find? p = none
  | .clientWrite p bytes => bytes = [] ∨ R.heap.Live p ∧ bytes.length ≤ (R.heap.bytes p).length
  | _ => True

section Entries

variable {R} {p : Addr} {t : TrackedBlock}

theorem find?_eq_none : R.find? p = none ↔ p ∉ R.records.map Prod.fst := by
  simp [find?, records, TrackedBlock.record]

theorem find?_push {q : Addr} {size tid : UInt64} (h : R.find? p = some t) :
    (R.push q size tid).find? p = some t := by
  unfold find? at h ⊢
  rw [push, List.find?_append, h]
  rfl

theorem records_push (q : Addr) (size tid : UInt64) :
    (R.push q size tid).records.Perm ((q, size) :: R.records) := by
  rw [records, push, List.map_append]
  exact List.perm_append_singleton _ _

theorem isSome_find? : (R.find? p).isSome ↔ ∃ t ∈ R.entries, t.data = p := by
  simp [find?]

/-- The block of an entry is there, and as long as it is recorded. -/
theorem Consistent.of_find? (hc : R.Consistent) (h : R.find? p = some t) :
    t.data = p ∧ R.heap.Live p ∧ t.size.toNat ≤ (R.heap.bytes p).length := by
  have hp := List.find?_some h
  obtain rfl : t.data = p := of_decide_eq_true hp
  have hmem : t.record ∈ R.records := List.mem_map_of_mem (List.mem_of_find?_eq_some h)
  exact ⟨rfl, hc.live _ hmem, hc.size _ hmem⟩

/-- The entry for `p` among the others. -/
theorem Consistent.split (hc : R.Consistent) (h : R.find? p = some t) : t.data = p ∧
    ∃ A B, R.entries = A ++ t :: B ∧ ∀ u ∈ A ++ B, u.data ≠ p := by
  obtain ⟨hp, A, B, hsplit, -⟩ := List.find?_eq_some_iff_append.mp h
  have hdata : t.data = p := of_decide_eq_true hp
  refine ⟨hdata, A, B, hsplit, fun u hu heq => ?_⟩
  have hnodup := hc.nodup
  rw [records, hsplit, List.map_map] at hnodup
  have hmiddle : ((t :: (A ++ B)).map fun t => t.data).Nodup :=
    (List.perm_middle.map _).nodup_iff.mp hnodup
  rw [List.map_cons, List.nodup_cons] at hmiddle
  exact hmiddle.1 (hdata ▸ heq ▸ List.mem_map_of_mem hu)

theorem records_split {A B : List TrackedBlock} (t : TrackedBlock) :
    ((A ++ t :: B).map TrackedBlock.record).Perm
      (t.record :: (A ++ B).map TrackedBlock.record) := by
  have hmiddle : (A ++ t :: B).Perm (t :: (A ++ B)) := List.perm_middle
  exact hmiddle.map _

theorem eraseP_split {A B : List TrackedBlock} (ht : t.data = p) (hA : ∀ u ∈ A ++ B, u.data ≠ p) :
    (A ++ t :: B).eraseP (·.data = p) = A ++ B := by
  have hnone : ∀ u ∈ A, ¬ decide (u.data = p) := fun u hu => by
    simpa using hA u (List.mem_append_left _ hu)
  rw [List.eraseP_append_right _ hnone, List.eraseP_cons_of_pos (by simpa using ht)]

theorem map_split {A B : List TrackedBlock} (f : TrackedBlock → TrackedBlock) (ht : t.data = p)
    (hA : ∀ u ∈ A ++ B, u.data ≠ p) :
    ((A ++ t :: B).map fun u => if u.data = p then f u else u) = A ++ f t :: B := by
  have hkeep : ∀ C : List TrackedBlock, (∀ u ∈ C, u.data ≠ p) →
      (C.map fun u => if u.data = p then f u else u) = C := fun C hC =>
    (List.map_congr_left fun u hu => if_neg (hC u hu)).trans (List.map_id' C)
  have hleft := hkeep A fun u hu => hA u (List.mem_append_left _ hu)
  have hright := hkeep B fun u hu => hA u (List.mem_append_right _ hu)
  rw [List.map_append, List.map_cons, if_pos ht, hleft, hright]

end Entries

/-! ### Everything an operation can do -/

/-- The changes an operation can make to the memory and the entries. -/
inductive Change (R : Registry) (op : Op) (R' : Registry) : Prop
  | kept : R'.heap.blocks = R.heap.blocks → R'.entries = R.entries → Change R op R'
  | allocated {p : Addr} {size tid : UInt64} {bytes : List UInt8} :
      R.heap.Admits p bytes.length → size.toNat ≤ bytes.length →
      R'.heap.blocks = (R.heap.place p bytes).blocks →
      R'.entries = (R.push p size tid).entries → Change R op R'
  | registered {p : Addr} {size tid : UInt64} :
      op = .register p ∧ size = 0 ∨
        op = .registerSize p size ∧ p ≠ NULL ∧ size ≠ 0 ∧ R.find? p = none →
      R' = R.push p size tid → Change R op R'
  | released {t : TrackedBlock} {p : Addr} : op = .free p → R.find? p = some t →
      R'.heap.blocks = R.heap.blocks.erase p → R'.entries = R.entries.eraseP (·.data = p) →
      Change R op R'
  | resized {t : TrackedBlock} {p q : Addr} {newSize : UInt64} {bytes : List UInt8} :
      op = .realloc p newSize → R.find? p = some t → (R.heap.drop p).Admits q bytes.length →
      bytes.length = newSize.toNat → R'.heap.blocks = ((R.heap.drop p).place q bytes).blocks →
      R'.entries = (R.rewrite p fun t => { t with data := q, size := newSize }).entries →
      Change R op R'
  | tagged {p : Addr} {id : UInt16} : op = .setBlockId p id →
      R' = R.rewrite p (fun t => { t with blockId := id }) → Change R op R'
  | clientAlloc {p : Addr} {size : UInt64} {bytes : List UInt8} : op = .clientMalloc size →
      R.heap.Admits p bytes.length → R' = { R with heap := R.heap.place p bytes } →
      Change R op R'
  | clientFree {p : Addr} : op = .clientFree p → p ≠ NULL →
      R' = { R with heap := R.heap.drop p } → Change R op R'
  | wrote {p : Addr} {bytes : List UInt8} : op = .clientWrite p bytes → bytes ≠ [] →
      R' = { R with heap := R.heap.place p (bytes ++ (R.heap.bytes p).drop bytes.length) } →
      Change R op R'

section Changes

variable {R R' : Registry} {cfg : Config} {env : Env} {o : Oracle} {op : Op} {p : Addr}

theorem change_refl : Change R op R := .kept rfl rfl

theorem fail_change (err : SnErrorCodes) (r : Reply) : Change R op (R.fail err r).2 := .kept rfl rfl

theorem allocate_change {size charge : UInt64} {bytes : List UInt8}
    (hsize : size.toNat ≤ bytes.length) : Change R op (R.allocate env size charge bytes).2 := by
  unfold allocate
  split_ifs with hlimit hadm
  · exact fail_change _ _
  · exact .allocated hadm hsize rfl rfl
  · exact fail_change _ _

theorem malloc_change {size : UInt64} {bytes : List UInt8} (hsize : size.toNat ≤ bytes.length) :
    Change R op (R.malloc env bytes size).2 := by
  unfold malloc
  split_ifs
  · exact fail_change _ _
  · exact allocate_change hsize

theorem free_change : Change R (.free p) (R.free cfg p).2 := by
  unfold free
  by_cases hnull : p = NULL
  · rw [if_pos hnull]
    exact fail_change _ _
  rw [if_neg hnull]
  cases hfind : R.find? p with
  | none => exact fail_change _ _
  | some t => exact .released rfl hfind rfl rfl

theorem realloc_change {newSize : UInt64} :
    Change R (.realloc p newSize) (R.realloc env o p newSize).2 := by
  unfold realloc
  by_cases hnull : p = NULL
  · rw [if_pos hnull]
    exact fail_change _ _
  rw [if_neg hnull]
  cases hfind : R.find? p with
  | none => exact fail_change _ _
  | some t =>
    dsimp only
    split_ifs with hsize hlimit hadm
    · exact fail_change _ _
    · exact fail_change _ _
    · have hlen : ((R.heap.bytes p ++ o.fresh (newSize.toNat - (R.heap.bytes p).length)).take
          newSize.toNat).length = newSize.toNat := by
        simp [Oracle.fresh]
        omega
      exact .resized rfl hfind (by rw [hlen]; exact hadm) hlen rfl rfl
    · exact fail_change _ _

theorem answer_change {dflt : Reply} {f : TrackedBlock → Reply × Registry}
    (hf : ∀ t, Change R op (f t).2) : Change R op (R.answer o p dflt f).2 := by
  unfold answer
  by_cases hnull : p = NULL
  · rw [if_pos hnull]
    exact fail_change _ _
  rw [if_neg hnull]
  cases R.find? p with
  | none => exact fail_change _ _
  | some t =>
    dsimp only
    split_ifs
    · exact hf t
    · exact change_refl

theorem mountFileToRam_change {file : Option FileName} :
    Change R op (R.mountFileToRam cfg env o file).2 := by
  unfold mountFileToRam
  cases file with
  | none => exact fail_change _ _
  | some path =>
    dsimp only
    cases (if env.fopenOk 0 then o.files path else none) with
    | none => exact fail_change _ _
    | some content =>
      dsimp only
      split_ifs
      · exact fail_change _ _
      · exact .kept rfl rfl
      · refine allocate_change ?_
        rw [List.length_take, Nat.le_min]
        refine ⟨le_rfl, ?_⟩
        rw [UInt64.toNat_ofNat']
        exact Nat.mod_le _ _
      · exact fail_change _ _

/-- The entry for `ptr`, if there is one, decides. -/
theorem match_change {ptr : Addr} {err : SnErrorCodes} {r : Reply}
    {f : TrackedBlock → Reply × Registry} (hf : ∀ t, Change R op (f t).2) :
    Change R op (match R.find? ptr with
      | none => R.fail err r
      | some t => f t).2 := by
  cases R.find? ptr with
  | none => exact fail_change _ _
  | some t => exact hf t

/-- **Everything one operation does** to the memory and the entries. -/
theorem step_change (op : Op) : Change R op (R.step cfg env o op).2 := by
  have hfresh : ∀ n, (o.fresh n).length = n := fun n => by simp [Oracle.fresh]
  cases op with
  | malloc size => exact malloc_change (hfresh _).ge
  | calloc num size =>
    rw [step]
    split_ifs with hzero
    · exact fail_change _ _
    · refine allocate_change ?_
      rw [List.length_replicate]
      refine Nat.le_mul_of_pos_left _ (Nat.pos_of_ne_zero fun h0 => hzero (Or.inr ?_))
      exact UInt64.toNat_inj.mp h0
  | realloc ptr newSize => exact realloc_change
  | mallocPreInitialized size v => exact malloc_change (List.length_replicate ..).ge
  | free ptr => exact free_change
  | register ptr => exact .registered (Or.inl ⟨rfl, rfl⟩) rfl
  | registerSize ptr size =>
    rw [step]
    split_ifs with hnull hzero hfound
    · exact fail_change _ _
    · exact fail_change _ _
    · exact change_refl
    · exact .registered (Or.inr ⟨rfl, hnull, hzero, by simpa using hfound⟩) rfl
  | querySize ptr =>
    rw [step]
    split_ifs
    · exact fail_change _ _
    · exact match_change fun _ => change_refl
  | queryTid ptr => exact answer_change fun _ => change_refl
  | isTrackedBlock ptr =>
    rw [step]
    split_ifs
    · exact fail_change _ _
    · exact change_refl
  | setBlockId block id =>
    rw [step]
    split_ifs
    · exact fail_change _ _
    · exact answer_change fun _ => .tagged rfl rfl
  | getBlockId block => exact answer_change fun _ => change_refl
  | queryBlockId id =>
    show Change R _ (R.queryBlockId o id).2
    unfold queryBlockId
    by_cases hid : id = 0
    · rw [if_pos hid]
      exact fail_change _ _
    rw [if_neg hid]
    cases R.entries.find? fun t => o.cached = some t.data ∧ t.blockId = id with
    | some t => exact change_refl
    | none =>
      dsimp only
      split_ifs
      · exact change_refl
      · exact fail_change _ _
  | queryMetadata ptr => exact answer_change fun _ => change_refl
  | queryStaticMetadata ptr =>
    refine answer_change fun t => malloc_change ?_
    simp [Oracle.metadata, metadataBytes, leBytes, sizeofSnMemMetadata]
  | setAllocLimit limit => exact .kept rfl rfl
  | queryThreadMemoryUsage tid => exact change_refl
  | queryTotalMemoryUsage => exact change_refl
  | calculateChecksum block =>
    refine answer_change fun t => ?_
    split_ifs
    · exact fail_change _ _
    · exact change_refl
  | requestToFastCache ptr =>
    rw [step]
    split_ifs
    · exact fail_change _ _
    · exact match_change fun _ => change_refl
  | dumpToFile file block =>
    show Change R _ (R.dumpToFile env o file block).2
    unfold dumpToFile
    cases file with
    | none => exact fail_change _ _
    | some path =>
      dsimp only
      split_ifs
      · exact fail_change _ _
      · refine answer_change fun t => ?_
        split_ifs
        · exact change_refl
        · exact fail_change _ _
  | mountFileToRam file => exact mountFileToRam_change
  | getLastError => exact change_refl
  | resetLastError => exact .kept rfl rfl
  | clientMalloc size =>
    rw [step]
    split_ifs with hadm
    · exact .clientAlloc rfl (by rw [hfresh]; exact hadm) rfl
    · exact change_refl
  | clientFree ptr =>
    rw [step]
    split_ifs with hnull
    · exact change_refl
    · exact .clientFree rfl hnull rfl
  | clientWrite ptr bytes =>
    rw [step]
    split_ifs with hnil
    · exact change_refl
    · exact .wrote rfl hnil rfl
  | doAutoFreeAtExit _ | memMetadataForEach _ _ | lockFastCache | unlockFastCache
  | doFastCaching _ | fastCacheClear => exact change_refl

/-! ### Every operation keeps the registry consistent -/

/-- What the new memory and the new entries have to do with each other. -/
theorem Consistent.of_backed {rs : List Record} {h : ClientHeap} (hb : Backed h rs)
    (hblocks : R'.heap.blocks = h.blocks) (hperm : rs.Perm R'.records) : R'.Consistent :=
  (hb.perm hperm).congr hblocks

/-- **The registry stays consistent** under every operation the client may perform. -/
theorem Change.consistent (h : Change R op R') (hc : R.Consistent) (hok : R.Allows op) :
    R'.Consistent := by
  cases h with
  | kept hblocks hentries =>
    refine .of_backed hc hblocks ?_
    rw [records, records, hentries]
  | @allocated q size tid bytes hadm hsize hblocks hentries =>
    refine .of_backed (Backed.allocate (r := (q, size)) hc hadm hsize) hblocks ?_
    rw [show R'.records = (R.push q size tid).records by rw [records, records, hentries]]
    exact (records_push q size tid).symm
  | @registered q size tid hwhich heq =>
    subst heq
    refine .of_backed (Backed.cons (r := (q, size)) hc ?_ ?_ ?_) rfl (records_push q size tid).symm
    · rcases hwhich with ⟨rfl, rfl⟩ | ⟨rfl, -, -, hnone⟩
      · exact find?_eq_none.mp hok.2
      · exact find?_eq_none.mp hnone
    · rcases hwhich with ⟨rfl, rfl⟩ | ⟨rfl, hnull, hzero, hnone⟩
      · exact hok.1
      · exact (((hok.resolve_left hnull).resolve_left hzero).resolve_left (by simp [hnone])).1
    · rcases hwhich with ⟨rfl, rfl⟩ | ⟨rfl, hnull, hzero, hnone⟩
      · exact Nat.zero_le _
      · exact (((hok.resolve_left hnull).resolve_left hzero).resolve_left (by simp [hnone])).2
  | @released t q _ hfind hblocks hentries =>
    obtain ⟨hdata, A, B, hsplit, hne⟩ := hc.split hfind
    have hdrop := (Backed.perm hc (hsplit ▸ records_split t : R.records.Perm _)).release
    rw [TrackedBlock.record, hdata] at hdrop
    refine .of_backed hdrop hblocks ?_
    rw [records, hentries, hsplit, eraseP_split hdata hne]
  | @resized t q q' newSize bytes _ hfind hadm hlen hblocks hentries =>
    obtain ⟨hdata, A, B, hsplit, hne⟩ := hc.split hfind
    have hdrop := (Backed.perm hc (hsplit ▸ records_split t : R.records.Perm _)).release
    rw [TrackedBlock.record, hdata] at hdrop
    refine .of_backed (Backed.allocate (r := (q', newSize)) hdrop hadm hlen.ge) hblocks ?_
    rw [records, hentries, rewrite, hsplit, map_split _ hdata hne]
    exact (records_split { t with data := q', size := newSize }).symm
  | tagged _ heq =>
    subst heq
    refine .of_backed hc rfl ?_
    rw [records, records, rewrite, List.map_map]
    refine List.Perm.of_eq (List.map_congr_left fun u _ => ?_)
    rw [Function.comp_apply]
    split_ifs <;> rfl
  | clientAlloc _ hadm heq =>
    subst heq
    exact Backed.place hc hadm
  | clientFree hop hnull heq =>
    subst hop heq
    exact Backed.drop hc (find?_eq_none.mp (hok.resolve_left hnull).2)
  | wrote hop hnil heq =>
    subst hop heq
    obtain ⟨hlive, hlen⟩ := hok.resolve_left hnil
    refine Backed.write hc hlive ?_
    rw [List.length_append, List.length_drop]
    omega

/-! ### What is not altered stays -/

/-- Entries of other blocks may go or change. -/
theorem find?_eraseP_of_ne {q : Addr} (hne : q ≠ p) (ts : List TrackedBlock) :
    (ts.eraseP (·.data = q)).find? (·.data = p) = ts.find? (·.data = p) := by
  induction ts with
  | nil => rfl
  | cons t ts ih =>
    by_cases ht : t.data = q
    · rw [List.eraseP_cons_of_pos (by simpa using ht), List.find?_cons_of_neg]
      simpa [ht] using hne
    · rw [List.eraseP_cons_of_neg (by simpa using ht), List.find?_cons, List.find?_cons, ih]

theorem find?_rewrite_of_ne {q : Addr} {f : TrackedBlock → TrackedBlock} (hne : q ≠ p)
    (hf : ∀ t, t.data = q → (f t).data ≠ p) : (R.rewrite q f).find? p = R.find? p := by
  unfold find? rewrite
  generalize R.entries = ts
  dsimp only
  induction ts with
  | nil => rfl
  | cons t ts ih =>
    rw [List.map_cons]
    by_cases ht : t.data = q
    · have hother : (if t.data = q then f t else t).data ≠ p := by
        rw [if_pos ht]
        exact hf t ht
      rw [List.find?_cons_of_neg (by simpa using hother), ih, List.find?_cons_of_neg]
      simpa [ht] using hne
    · rw [if_neg ht, List.find?_cons, List.find?_cons, ih]

/-- **An operation keeps every block that it does not alter**: its entry and its bytes. -/
theorem Change.untouched {t : TrackedBlock} (h : Change R op R') (hc : R.Consistent)
    (hno : ¬ op.Alters p) (hfind : R.find? p = some t) :
    R'.find? p = some t ∧ R'.heap.bytes p = R.heap.bytes p := by
  obtain ⟨-, hlive, -⟩ := hc.of_find? hfind
  have hentries : ∀ R'' : Registry, R'.entries = R''.entries → R'.find? p = R''.find? p :=
    fun R'' heq => by rw [find?, find?, heq]
  cases h with
  | kept hblocks heq =>
    rw [hentries R heq, ClientHeap.bytes_congr hblocks]
    exact ⟨hfind, rfl⟩
  | @allocated q _ _ _ hadm _ hblocks heq =>
    have hne : p ≠ q := fun hq => hadm.not_live (hq ▸ hlive)
    rw [hentries _ heq, ClientHeap.bytes_congr hblocks, ClientHeap.bytes_place_of_ne hne]
    exact ⟨find?_push hfind, rfl⟩
  | registered _ heq =>
    subst heq
    exact ⟨find?_push hfind, rfl⟩
  | @released _ q hop _ hblocks heq =>
    subst hop
    have hbytes : R'.heap.bytes p = (R.heap.drop q).bytes p := ClientHeap.bytes_congr hblocks p
    rw [find?, heq, find?_eraseP_of_ne hno, hbytes]
    exact ⟨hfind, ClientHeap.bytes_drop_of_ne (Ne.symm hno)⟩
  | @resized _ q q' _ _ hop _ hadm _ hblocks heq =>
    subst hop
    have hne : p ≠ q' := fun hq =>
      hadm.not_live (hq ▸ ClientHeap.live_drop.mpr ⟨Ne.symm hno, hlive⟩)
    rw [hentries _ heq, find?_rewrite_of_ne hno fun _ _ hq => hne hq.symm,
      ClientHeap.bytes_congr hblocks, ClientHeap.bytes_place_of_ne hne]
    exact ⟨hfind, ClientHeap.bytes_drop_of_ne (Ne.symm hno)⟩
  | @tagged q id hop heq =>
    subst hop heq
    have hother : ∀ t : TrackedBlock, t.data = q → { t with blockId := id }.data ≠ p :=
      fun _ ht hq => hno (ht.symm.trans hq)
    rw [find?_rewrite_of_ne hno hother]
    exact ⟨hfind, rfl⟩
  | @clientAlloc q _ _ _ hadm heq =>
    subst heq
    have hne : p ≠ q := fun hq => hadm.not_live (hq ▸ hlive)
    exact ⟨hfind, ClientHeap.bytes_place_of_ne hne⟩
  | clientFree hop _ heq =>
    subst hop heq
    exact ⟨hfind, ClientHeap.bytes_drop_of_ne (Ne.symm hno)⟩
  | wrote hop _ heq =>
    subst hop heq
    exact ⟨hfind, ClientHeap.bytes_place_of_ne (Ne.symm hno)⟩

/-! ### What is allocated is tracked -/

theorem isSome_find?_rewrite {q : Addr} {f : TrackedBlock → TrackedBlock}
    (hf : ∀ t, (f t).data = t.data) : ((R.rewrite q f).find? p).isSome ↔ (R.find? p).isSome := by
  have hdata : ∀ t : TrackedBlock, (if t.data = q then f t else t).data = t.data := fun t => by
    split_ifs
    · exact hf t
    · rfl
  simp [isSome_find?, rewrite, hdata]

/-- **The library allocates only what it tracks**: where `p` was untracked and is allocated,
it was allocated before. -/
theorem Change.live_untracked (h : Change R op R') (hok : R.Allows op)
    (hop : ∀ size, op ≠ .clientMalloc size) (hlive : R'.heap.Live p)
    (hnone : ¬ (R'.find? p).isSome) : R.heap.Live p ∧ ¬ (R.find? p).isSome := by
  have hentries : ∀ R'' : Registry, R'.entries = R''.entries → R'.find? p = R''.find? p :=
    fun R'' heq => by rw [find?, find?, heq]
  have hpush : ∀ {q : Addr} {size tid : UInt64}, ¬ ((R.push q size tid).find? p).isSome →
      p ≠ q ∧ ¬ (R.find? p).isSome := by
    simp only [isSome_find?, push, List.mem_append, List.mem_singleton]
    intro q size tid hall
    refine ⟨fun heq => hall ⟨⟨q, size, tid, 0⟩, Or.inr rfl, heq.symm⟩, ?_⟩
    rintro ⟨t, ht, hdata⟩
    exact hall ⟨t, Or.inl ht, hdata⟩
  cases h with
  | kept hblocks heq =>
    rw [hentries R heq] at hnone
    exact ⟨(ClientHeap.Live.congr hblocks p).mp hlive, hnone⟩
  | allocated _ _ hblocks heq =>
    rw [hentries _ heq] at hnone
    obtain ⟨hne, hold⟩ := hpush hnone
    have hplace := (ClientHeap.Live.congr hblocks p).mp hlive
    exact ⟨(ClientHeap.live_place.mp hplace).resolve_left hne, hold⟩
  | registered _ heq =>
    subst heq
    exact ⟨hlive, (hpush hnone).2⟩
  | released _ _ hblocks heq =>
    obtain ⟨hne, hold⟩ := ClientHeap.live_drop.mp ((ClientHeap.Live.congr hblocks p).mp hlive)
    rw [find?, heq, find?_eraseP_of_ne (Ne.symm hne)] at hnone
    exact ⟨hold, hnone⟩
  | @resized t q q' newSize _ _ hfind _ _ hblocks heq =>
    rw [hentries _ heq] at hnone
    have hq' : ((R.rewrite q fun t => { t with data := q', size := newSize }).find? q').isSome := by
      obtain ⟨u, hu, hdata⟩ := isSome_find?.mp (Option.isSome_of_eq_some hfind)
      refine isSome_find?.mpr ⟨_, List.mem_map_of_mem hu, ?_⟩
      rw [if_pos hdata]
    have hne' : p ≠ q' := fun h0 => hnone (h0 ▸ hq')
    have hplace := (ClientHeap.Live.congr hblocks p).mp hlive
    obtain ⟨hne, hold⟩ :=
      ClientHeap.live_drop.mp ((ClientHeap.live_place.mp hplace).resolve_left hne')
    rw [find?_rewrite_of_ne (Ne.symm hne) fun _ _ h0 => hne' h0.symm] at hnone
    exact ⟨hold, hnone⟩
  | @tagged q id _ heq =>
    subst heq
    have hsame : ∀ t : TrackedBlock, { t with blockId := id }.data = t.data := fun _ => rfl
    rw [isSome_find?_rewrite hsame] at hnone
    exact ⟨hlive, hnone⟩
  | clientAlloc hclient _ _ => exact absurd hclient (hop _)
  | clientFree _ _ heq =>
    subst heq
    exact ⟨(ClientHeap.live_drop.mp hlive).2, hnone⟩
  | @wrote q bytes hwrite hnil heq =>
    subst hwrite heq
    refine ⟨?_, hnone⟩
    rcases ClientHeap.live_place.mp hlive with rfl | hold
    · exact (hok.resolve_left hnil).1
    · exact hold

end Changes

end Registry

end LibSafetynet
