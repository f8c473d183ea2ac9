import LibSafetynet.Logic.Prog
import Mathlib.Data.Finmap
import Mathlib.Order.Lattice.Nat

/-!
# The platform layer (`backend_api/src/platform_independent`)

What the library asks of the platform: thread ids, mutexes and an allocator.
The platform's free choices are the *answers* in `Env`: which thread is calling,
which address the next allocation would use, how a file operation ends. An answer
is only a proposal: an allocator answer is used when the bytes it names are free
and refused (`NULL`) otherwise, so every `Env` is a legal platform and every
legal platform is some choice of `Env`s.

- `platMutexLock`/`platMutexUnlock` (plat_threading.c): a mutex is its OS holder
  and `locker_tid`. Locking again from the locking thread is a no-op, unlocking
  always releases fully.
- `ClientHeap`: the client's blocks. Blocks are byte ranges of a 64-bit address
  space and never overlap; `freed` records every call of `plat_free` with the
  bytes the block held at that moment.

List nodes live in a heap of their own (`LinkedList.lean`): no code compares the
address of a node with the address of a client block.
-/

namespace LibSafetynet

open Logic

/-- A machine address; node addresses and client addresses. -/
abbrev Addr := Nat

/-- The null pointer. -/
abbrev NULL : Addr := 0

/-- One past the largest `size_t`, and the number of byte addresses. -/
abbrev addressSpace : Nat := 2 ^ 64

/-- `sn_error_codes_e` (libsafetynet.h). -/
inductive SnErrorCodes where
  | snErrOk
  | snErrNullPtr
  | snErrNoSize
  | snErrBadSize
  | snErrBadAlloc
  | snErrNoAdderFound
  | snErrNoTidFound
  | snErrBadBlockId
  | snErrFilePreExist
  | snErrFileIo
  | snErrFileNotExist
  | snErrAllocLimitHit
  | snWarnDubFree
  | snErrSysFail
  | snErrCatastrophic
  | snErrDebug
  | snInfoPlaceholder
  deriving DecidableEq

/-- The platform's answers during one call. -/
structure Env where
  /-- The calling thread, `plat_getTid()`. -/
  tid : UInt64
  /-- Where the next list node would be allocated. -/
  node : Addr
  /-- Where the next client block would be allocated. -/
  block : Addr
  /-- What uninitialised memory happens to contain. -/
  junk : Nat → UInt8
  /-- Whether the call's `n`-th `fopen` of an existing or creatable file succeeds. -/
  fopenOk : Nat → Bool
  /-- How many bytes `fread`/`fwrite` transfer at most. -/
  transferred : Nat
  /-- How many of the written bytes are in the file after `fclose`. -/
  flushed : Nat
  /-- Whether the call's `n`-th `plat_mutex_new` succeeds. -/
  mutexOk : Nat → Bool

/-- A platform where everything succeeds, by the addresses it would hand out. -/
def Env.plain (tid : UInt64) (node block : Addr) : Env :=
  { tid, node, block, junk := fun _ => 0, fopenOk := fun _ => true, transferred := addressSpace
    flushed := addressSpace, mutexOk := fun _ => true }

/-- Why a call does not return. -/
inductive Stop where
  /-- Waiting for a mutex another thread holds. -/
  | blocked
  /-- The C code has no defined behaviour here (a dead node or block is accessed). -/
  | undefined
  /-- A loop ran out of fuel. -/
  | diverge
  /-- `sn_crash(err)`. -/
  | crash (err : SnErrorCodes)
  deriving DecidableEq

/-- C code over a state `σ`. -/
abbrev CProg := Prog Env Stop

open Prog

/-- `plat_getTid`. -/
def platGetTid {σ : Type} : CProg σ UInt64 := do
  return (← ask).tid

/-! ## Mutexes (plat_threading.c) -/

/-- `plat_mutex_s`: the OS mutex, by its holder, and `locker_tid`. -/
structure PlatMutex where
  holder : Option UInt64
  lockerTid : UInt64
  deriving DecidableEq

/-- The mutex after `plat_mutex_new` and after every unlock. -/
def PlatMutex.free : PlatMutex := ⟨none, 0⟩

/-- The call's `n`-th `plat_mutex_new`; `none` is the null pointer. -/
def platMutexNew {σ : Type} (n : Nat) : CProg σ (Option PlatMutex) := do
  return if (← ask).mutexOk n then some .free else none

/-- `plat_mutex_lock`. A null mutex is not locked, as in a build without
`SN_CONFIG_ENABLE_MUTEX`. -/
def platMutexLock : CProg (Option PlatMutex) Unit := do
  match ← get with
  | none => return ()
  | some self =>
    if (← platGetTid) = self.lockerTid then return ()
    when self.holder.isSome (stop .blocked)
    let tid ← platGetTid
    modify fun _ => some ⟨some tid, tid⟩

/-- `plat_mutex_unlock`. -/
def platMutexUnlock : CProg (Option PlatMutex) Unit :=
  modify (Option.map fun _ => PlatMutex.free)

namespace PlatMutex

/-- Whether `plat_mutex_lock` by `tid` would wait. -/
def Blocks (tid : UInt64) : Option PlatMutex → Prop
  | none => False
  | some m => tid ≠ m.lockerTid ∧ m.holder.isSome

instance (tid : UInt64) : (m : Option PlatMutex) → Decidable (Blocks tid m)
  | none => inferInstanceAs (Decidable False)
  | some m => inferInstanceAs (Decidable (tid ≠ m.lockerTid ∧ m.holder.isSome))

/-- The mutex once `plat_mutex_lock` by `tid` has returned. -/
def acquire (tid : UInt64) : Option PlatMutex → Option PlatMutex
  | none => none
  | some m => if tid = m.lockerTid then some m else some ⟨some tid, tid⟩

/-- The mutex after `plat_mutex_unlock`. -/
def release (m : Option PlatMutex) : Option PlatMutex := m.map fun _ => free

/-- Nobody holds the mutex. -/
def IsFree (m : Option PlatMutex) : Prop := ∀ x ∈ m, x = free

instance (m : Option PlatMutex) : Decidable (IsFree m) :=
  inferInstanceAs (Decidable (∀ x ∈ m, x = free))

/-- `tid` may lock again without waiting and without effect. -/
def Mine (tid : UInt64) (m : Option PlatMutex) : Prop := acquire tid m = m ∧ ¬ Blocks tid m

theorem mine_acquire {tid : UInt64} {m : Option PlatMutex} (h : ¬ Blocks tid m) :
    Mine tid (acquire tid m) := by
  cases m with
  | none => exact ⟨rfl, h⟩
  | some m =>
    by_cases ht : tid = m.lockerTid
    · rw [acquire, if_pos ht]
      exact ⟨by rw [acquire, if_pos ht], h⟩
    · rw [acquire, if_neg ht]
      exact ⟨by simp [acquire], by simp [Blocks]⟩

theorem isFree_release (m : Option PlatMutex) : IsFree (release m) := by
  cases m <;> simp [IsFree, release]

@[simp] theorem release_acquire (tid : UInt64) (m : Option PlatMutex) :
    release (acquire tid m) = release m := by
  cases m with
  | none => rfl
  | some m => simp only [acquire]; split <;> rfl

@[simp] theorem acquire_acquire (tid : UInt64) (m : Option PlatMutex) :
    acquire tid (acquire tid m) = acquire tid m := by
  cases m with
  | none => rfl
  | some m =>
    by_cases ht : tid = m.lockerTid
    · simp [acquire, ht]
    · simp [acquire, ht]

@[simp] theorem release_release (m : Option PlatMutex) : release (release m) = release m := by
  cases m <;> rfl

theorem IsFree.release_eq {m : Option PlatMutex} (h : IsFree m) : release m = m := by
  cases m with
  | none => rfl
  | some m => rw [release, Option.map_some, ← h m rfl]

theorem IsFree.not_blocks {m : Option PlatMutex} (h : IsFree m) (tid : UInt64) :
    ¬ Blocks tid m := by
  cases m with
  | none => exact id
  | some m => rw [h m rfl]; simp [Blocks, free]

/-- `m'` is `m`, or `m` after an unlock. -/
def Unlocks (m m' : Option PlatMutex) : Prop := m' = m ∨ m' = release m

theorem Unlocks.blocks {m m' : Option PlatMutex} (h : Unlocks m m') {tid : UInt64}
    (hb : Blocks tid m') : Blocks tid m := by
  rcases h with rfl | rfl
  · exact hb
  · exact absurd hb ((isFree_release m).not_blocks tid)

theorem Unlocks.release_eq {m m' : Option PlatMutex} (h : Unlocks m m') :
    release m' = release m := by
  rcases h with rfl | rfl
  · rfl
  · exact release_release m

theorem Unlocks.isFree {m m' : Option PlatMutex} (h : Unlocks m m') (hf : IsFree m) :
    IsFree m' := by
  rcases h with rfl | rfl
  · exact hf
  · exact isFree_release m

end PlatMutex

open PlatMutex

@[simp] theorem wp_platMutexLock {env : Env} {m : Option PlatMutex}
    {Q : Unit → Option PlatMutex → Prop} {E : Stop → Option PlatMutex → Prop} :
    wp platMutexLock env Q E m ↔
      (¬ Blocks env.tid m → Q () (acquire env.tid m)) ∧ (Blocks env.tid m → E .blocked m) := by
  cases m with
  | none => simp [platMutexLock, Blocks, acquire]
  | some m =>
    by_cases ht : env.tid = m.lockerTid
    · simp [platMutexLock, platGetTid, Blocks, acquire, ht]
    · by_cases hh : m.holder.isSome
      · simp [platMutexLock, platGetTid, Blocks, acquire, ht, hh]
      · simp [platMutexLock, platGetTid, Blocks, acquire, ht, hh]

@[simp] theorem wp_platMutexUnlock {env : Env} {m : Option PlatMutex}
    {Q : Unit → Option PlatMutex → Prop} {E : Stop → Option PlatMutex → Prop} :
    wp platMutexUnlock env Q E m ↔ Q () (release m) := Iff.rfl

/-! ## The client's memory (plat_allocators.c) -/

/-- The client's blocks by base address, with their bytes, and the calls of
`plat_free` on client memory so far. -/
structure ClientHeap where
  blocks : Finmap fun _ : Addr => List UInt8
  freed : List (Addr × List UInt8)

namespace ClientHeap

/-- The bytes of the block at `p`. -/
def bytes (h : ClientHeap) (p : Addr) : List UInt8 := (h.blocks.lookup p).getD []

/-- A block is allocated at `p`. -/
def Live (h : ClientHeap) (p : Addr) : Prop := (h.blocks.lookup p).isSome

instance (h : ClientHeap) (p : Addr) : Decidable (h.Live p) :=
  inferInstanceAs (Decidable (_ = true))

/-- `n` bytes at `a` lie in the address space and off every allocated block. -/
def Admits (h : ClientHeap) (a : Addr) (n : Nat) : Prop :=
  a ≠ NULL ∧ a + n ≤ addressSpace ∧ ¬ h.Live a ∧
    ∀ b ∈ h.blocks.keys, b + (h.bytes b).length ≤ a ∨ a + n ≤ b

instance (h : ClientHeap) (a : Addr) (n : Nat) : Decidable (h.Admits a n) :=
  inferInstanceAs (Decidable (_ ∧ _ ∧ _ ∧ _))

/-- Place a block. -/
def place (h : ClientHeap) (a : Addr) (bs : List UInt8) : ClientHeap :=
  { h with blocks := h.blocks.insert a bs }

/-- Drop a block. -/
def drop (h : ClientHeap) (a : Addr) : ClientHeap := { h with blocks := h.blocks.erase a }

/-- The base of the block that `p` points into, if there is one: the last base up to `p`. -/
def baseOf (h : ClientHeap) (p : Addr) : Addr := (h.blocks.keys.filter (· ≤ p)).sup id

/-- The `n` bytes at `p` lie in one block. -/
def Covers (h : ClientHeap) (p : Addr) (n : Nat) : Prop :=
  h.Live (h.baseOf p) ∧ p + n ≤ h.baseOf p + (h.bytes (h.baseOf p)).length

instance (h : ClientHeap) (p : Addr) (n : Nat) : Decidable (h.Covers p n) :=
  inferInstanceAs (Decidable (_ ∧ _))

/-- The `n` bytes at `p`. -/
def readAt (h : ClientHeap) (p : Addr) (n : Nat) : List UInt8 :=
  ((h.bytes (h.baseOf p)).drop (p - h.baseOf p)).take n

/-- `bs` over the bytes at `p`. -/
def writeAt (h : ClientHeap) (p : Addr) (bs : List UInt8) : ClientHeap :=
  let old := h.bytes (h.baseOf p)
  let offset := p - h.baseOf p
  h.place (h.baseOf p) (old.take offset ++ bs ++ old.drop (offset + bs.length))

end ClientHeap

/-- The first `n` bytes of uninitialised memory. -/
def Env.junkBytes (env : Env) (n : Nat) : List UInt8 := (List.range n).map env.junk

/-- `plat_malloc` of a client block. -/
def platMalloc (size : UInt64) : CProg ClientHeap Addr := do
  let env ← ask
  let h ← get
  if h.Admits env.block size.toNat then
    modify (·.place env.block (env.junkBytes size.toNat))
    return env.block
  return NULL

/-- `plat_calloc`: `num * size` is not truncated by the allocator. -/
def platCalloc (num size : UInt64) : CProg ClientHeap Addr := do
  let env ← ask
  let h ← get
  if h.Admits env.block (num.toNat * size.toNat) then
    modify (·.place env.block (List.replicate (num.toNat * size.toNat) 0))
    return env.block
  return NULL

/-- `plat_realloc`: may keep the address, move the block, or refuse and leave the
old block alone. -/
def platRealloc (ptr : Addr) (newSize : UInt64) : CProg ClientHeap Addr := do
  let env ← ask
  let h ← get
  when (¬ h.Live ptr) (stop .undefined)
  let old := h.bytes ptr
  if (h.drop ptr).Admits env.block newSize.toNat then
    let grown := old ++ env.junkBytes (newSize.toNat - old.length)
    modify fun h => (h.drop ptr).place env.block (grown.take newSize.toNat)
    return env.block
  return NULL

/-- `plat_free` of a client block. -/
def platFree (ptr : Addr) : CProg ClientHeap Unit := do
  if ptr = NULL then return ()
  modify fun h => { h with freed := h.freed ++ [(ptr, h.bytes ptr)] }
  let h ← get
  when (¬ h.Live ptr) (stop .undefined)
  modify (·.drop ptr)

/-- `memset(ptr, value, n)` on client memory. -/
def memset (ptr : Addr) (value : UInt8) (n : Nat) : CProg ClientHeap Unit := do
  let h ← get
  if n = 0 then return ()
  when (¬ h.Covers ptr n) (stop .undefined)
  modify (·.writeAt ptr (List.replicate n value))

/-- Copy `bs` to `ptr` (`memcpy`, `fread`). -/
def memWrite (ptr : Addr) (bs : List UInt8) : CProg ClientHeap Unit := do
  let h ← get
  if bs = [] then return ()
  when (¬ h.Covers ptr bs.length) (stop .undefined)
  modify (·.writeAt ptr bs)

/-- The `n` bytes at `ptr`. -/
def memRead (ptr : Addr) (n : Nat) : CProg ClientHeap (List UInt8) := do
  let h ← get
  if n = 0 then return []
  when (¬ h.Covers ptr n) (stop .undefined)
  return h.readAt ptr n

/-! ## Specifications of the client's memory -/

namespace ClientHeap

variable {h : ClientHeap} {a b : Addr} {bs cs : List UInt8} {n : Nat}

theorem Admits.ne_null (ha : h.Admits a n) : a ≠ NULL := ha.1

theorem Admits.not_live (ha : h.Admits a n) : ¬ h.Live a := ha.2.2.1

@[simp] theorem bytes_place_self : (h.place a bs).bytes a = bs := by
  simp [bytes, place]

theorem bytes_place_of_ne (hb : b ≠ a) : (h.place a bs).bytes b = h.bytes b := by
  simp [bytes, place, Finmap.lookup_insert_of_ne _ hb]

theorem bytes_drop_of_ne (hb : b ≠ a) : (h.drop a).bytes b = h.bytes b := by
  simp [bytes, drop, Finmap.lookup_erase_ne hb]

theorem live_place : (h.place a bs).Live b ↔ b = a ∨ h.Live b := by
  unfold Live place
  rw [Finmap.lookup_isSome, Finmap.mem_insert, Finmap.lookup_isSome]

theorem live_drop : (h.drop a).Live b ↔ b ≠ a ∧ h.Live b := by
  unfold Live drop
  rw [Finmap.lookup_isSome, Finmap.mem_erase, Finmap.lookup_isSome]

theorem live_iff_mem_keys : h.Live a ↔ a ∈ h.blocks.keys := by
  rw [Live, Finmap.lookup_isSome, Finmap.mem_keys]

@[simp] theorem place_place : (h.place a bs).place a cs = h.place a cs := by
  simp [place, Finmap.insert_insert]

theorem erase_place : (h.place a bs).blocks.erase a = h.blocks.erase a := by
  apply Finmap.ext_lookup
  intro b
  by_cases hb : b = a
  · rw [hb, Finmap.lookup_erase, Finmap.lookup_erase]
  · rw [Finmap.lookup_erase_ne hb, Finmap.lookup_erase_ne hb, place,
      Finmap.lookup_insert_of_ne _ hb]

/-- A base is the base of its own block. -/
@[simp] theorem baseOf_of_live (hlive : h.Live a) : h.baseOf a = a := by
  have hmem : a ∈ h.blocks.keys.filter (· ≤ a) :=
    Finset.mem_filter.mpr ⟨live_iff_mem_keys.mp hlive, le_rfl⟩
  refine Nat.le_antisymm (Finset.sup_le fun b hb => (Finset.mem_filter.mp hb).2) ?_
  exact Finset.le_sup (f := id) hmem

theorem baseOf_le (h : ClientHeap) (p : Addr) : h.baseOf p ≤ p :=
  Finset.sup_le fun _ hb => (Finset.mem_filter.mp hb).2

theorem covers_of_live (hlive : h.Live a) : h.Covers a n ↔ n ≤ (h.bytes a).length := by
  rw [Covers, baseOf_of_live hlive, and_iff_right hlive, Nat.add_le_add_iff_left]

theorem readAt_of_live (hlive : h.Live a) (n : Nat) : h.readAt a n = (h.bytes a).take n := by
  rw [readAt, baseOf_of_live hlive, Nat.sub_self, List.drop_zero]

theorem writeAt_of_live (hlive : h.Live a) (bs : List UInt8) :
    h.writeAt a bs = h.place a (bs ++ (h.bytes a).drop bs.length) := by
  simp only [writeAt, baseOf_of_live hlive, Nat.sub_self, List.take_zero, List.nil_append,
    Nat.zero_add]

theorem Covers.fits (hc : h.Covers a n) :
    a - h.baseOf a + n ≤ (h.bytes (h.baseOf a)).length := by
  rw [← Nat.sub_add_comm (h.baseOf_le a)]
  exact Nat.sub_le_iff_le_add'.mpr hc.2

theorem Covers.length_readAt (hc : h.Covers a n) : (h.readAt a n).length = n := by
  rw [readAt, List.length_take, List.length_drop]
  exact Nat.min_eq_left (Nat.le_sub_of_add_le' hc.fits)

/-- A write puts new bytes into one block. -/
theorem Covers.writeAt (hc : h.Covers a bs.length) :
    ∃ cs, h.writeAt a bs = h.place (h.baseOf a) cs ∧ cs.length = (h.bytes (h.baseOf a)).length := by
  refine ⟨_, rfl, ?_⟩
  simp only [List.length_append, List.length_take, List.length_drop]
  rw [Nat.min_eq_left (Nat.le_trans (Nat.le_add_right _ _) hc.fits)]
  exact Nat.add_sub_cancel' hc.fits

/-- Freeing a block that was just placed leaves the blocks as they were. -/
theorem erase_place_of_not_live (hdead : ¬ h.Live a) :
    (h.place a bs).blocks.erase a = h.blocks := by
  rw [erase_place]
  apply Finmap.ext_lookup
  intro b
  by_cases hb : b = a
  · rw [hb, Finmap.lookup_erase]
    exact (Option.not_isSome_iff_eq_none.mp hdead).symm
  · exact Finmap.lookup_erase_ne hb

end ClientHeap

section Memory

variable {env : Env} {h : ClientHeap} {E : Stop → ClientHeap → Prop}

@[simp] theorem Env.length_junkBytes (n : Nat) : (env.junkBytes n).length = n := by
  simp [Env.junkBytes]

theorem wp_platMalloc {size : UInt64} {Q : Addr → ClientHeap → Prop}
    (hfail : ¬ h.Admits env.block size.toNat → Q NULL h)
    (hok : h.Admits env.block size.toNat →
      Q env.block (h.place env.block (env.junkBytes size.toNat))) :
    wp (platMalloc size) env Q E h := by
  rw [platMalloc, wp_bind, wp_ask, wp_bind, wp_get, wp_ite]
  exact ⟨hok, hfail⟩

theorem wp_platCalloc {num size : UInt64} {Q : Addr → ClientHeap → Prop}
    (hfail : ¬ h.Admits env.block (num.toNat * size.toNat) → Q NULL h)
    (hok : h.Admits env.block (num.toNat * size.toNat) →
      Q env.block (h.place env.block (List.replicate (num.toNat * size.toNat) 0))) :
    wp (platCalloc num size) env Q E h := by
  rw [platCalloc, wp_bind, wp_ask, wp_bind, wp_get, wp_ite]
  exact ⟨hok, hfail⟩

theorem wp_platRealloc {ptr : Addr} {newSize : UInt64} {Q : Addr → ClientHeap → Prop}
    (hdead : ¬ h.Live ptr → E .undefined h)
    (hfail : h.Live ptr → ¬ (h.drop ptr).Admits env.block newSize.toNat → Q NULL h)
    (hok : h.Live ptr → (h.drop ptr).Admits env.block newSize.toNat →
      ∀ bytes, bytes.length = newSize.toNat →
        Q env.block ((h.drop ptr).place env.block bytes)) :
    wp (platRealloc ptr newSize) env Q E h := by
  rw [platRealloc, wp_bind, wp_ask, wp_bind, wp_get, wp_bind, wp_when]
  refine ⟨hdead, fun hlive => ?_⟩
  rw [not_not] at hlive
  rw [wp_ite]
  refine ⟨fun hadm => ?_, hfail hlive⟩
  refine hok hlive hadm _ ?_
  simp only [List.length_take, List.length_append, Env.length_junkBytes]
  omega

/-- `plat_free` of a live block, or of null. -/
theorem wp_platFree {ptr : Addr} {Q : Unit → ClientHeap → Prop}
    (hnull : ptr = NULL → Q () h)
    (hdead : ptr ≠ NULL → ¬ h.Live ptr → ∀ h', E .undefined h')
    (hok : ptr ≠ NULL → h.Live ptr →
      Q () { blocks := h.blocks.erase ptr, freed := h.freed ++ [(ptr, h.bytes ptr)] }) :
    wp (platFree ptr) env Q E h := by
  rw [platFree, wp_ite]
  refine ⟨hnull, fun hne => ?_⟩
  rw [wp_bind, wp_modify, wp_bind, wp_get, wp_bind, wp_when]
  refine ⟨fun hd => hdead hne hd _, fun hlive => ?_⟩
  exact hok hne (not_not.mp hlive)

theorem wp_memset_at {ptr : Addr} {value : UInt8} {n : Nat} {Q : Unit → ClientHeap → Prop}
    (hzero : n = 0 → Q () h) (hdead : n ≠ 0 → ¬ h.Covers ptr n → E .undefined h)
    (hok : n ≠ 0 → h.Covers ptr n → Q () (h.writeAt ptr (List.replicate n value))) :
    wp (memset ptr value n) env Q E h := by
  rw [memset, wp_bind, wp_get, wp_ite]
  refine ⟨hzero, fun hn => ?_⟩
  rw [wp_bind, wp_when]
  exact ⟨hdead hn, fun hgood => hok hn (not_not.mp hgood)⟩

theorem wp_memset {ptr : Addr} {value : UInt8} {n : Nat} {Q : Unit → ClientHeap → Prop}
    (hfits : h.Live ptr ∧ n ≤ (h.bytes ptr).length) (hzero : n = 0 → Q () h)
    (hok : n ≠ 0 → Q () (h.place ptr (List.replicate n value ++ (h.bytes ptr).drop n))) :
    wp (memset ptr value n) env Q E h := by
  refine wp_memset_at hzero (fun _ hbad => ?_) fun hn _ => ?_
  · exact absurd ((ClientHeap.covers_of_live hfits.1).mpr hfits.2) hbad
  · rw [ClientHeap.writeAt_of_live hfits.1, List.length_replicate]
    exact hok hn

theorem wp_memWrite_at {ptr : Addr} {bs : List UInt8} {Q : Unit → ClientHeap → Prop}
    (hzero : bs = [] → Q () h) (hdead : bs ≠ [] → ¬ h.Covers ptr bs.length → E .undefined h)
    (hok : bs ≠ [] → h.Covers ptr bs.length → Q () (h.writeAt ptr bs)) :
    wp (memWrite ptr bs) env Q E h := by
  rw [memWrite, wp_bind, wp_get, wp_ite]
  refine ⟨hzero, fun hn => ?_⟩
  rw [wp_bind, wp_when]
  exact ⟨hdead hn, fun hgood => hok hn (not_not.mp hgood)⟩

theorem wp_memWrite {ptr : Addr} {bs : List UInt8} {Q : Unit → ClientHeap → Prop}
    (hfits : h.Live ptr ∧ bs.length ≤ (h.bytes ptr).length) (hzero : bs = [] → Q () h)
    (hok : bs ≠ [] → Q () (h.place ptr (bs ++ (h.bytes ptr).drop bs.length))) :
    wp (memWrite ptr bs) env Q E h := by
  refine wp_memWrite_at hzero (fun _ hbad => ?_) fun hn _ => ?_
  · exact absurd ((ClientHeap.covers_of_live hfits.1).mpr hfits.2) hbad
  · rw [ClientHeap.writeAt_of_live hfits.1]
    exact hok hn

theorem wp_memRead_at {ptr : Addr} {n : Nat} {Q : List UInt8 → ClientHeap → Prop}
    (hzero : n = 0 → Q [] h) (hdead : n ≠ 0 → ¬ h.Covers ptr n → E .undefined h)
    (hok : n ≠ 0 → h.Covers ptr n → Q (h.readAt ptr n) h) :
    wp (memRead ptr n) env Q E h := by
  rw [memRead, wp_bind, wp_get, wp_ite]
  refine ⟨hzero, fun hn => ?_⟩
  rw [wp_bind, wp_when]
  exact ⟨hdead hn, fun hgood => hok hn (not_not.mp hgood)⟩

theorem wp_memRead {ptr : Addr} {n : Nat} {Q : List UInt8 → ClientHeap → Prop}
    (hfits : h.Live ptr ∧ n ≤ (h.bytes ptr).length) (hok : Q ((h.bytes ptr).take n) h) :
    wp (memRead ptr n) env Q E h := by
  refine wp_memRead_at (fun h0 => ?_) (fun _ hbad => ?_) fun _ _ => ?_
  · rwa [h0, List.take_zero] at hok
  · exact absurd ((ClientHeap.covers_of_live hfits.1).mpr hfits.2) hbad
  · rwa [ClientHeap.readAt_of_live hfits.1]

end Memory

end LibSafetynet
