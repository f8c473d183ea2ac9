import LibSafetynet.CacheCoherence
import LibSafetynet.Exit

/-!
# No double free, no wrong free, no leak

Without `sn_realloc` and registration the slots stay coherent and the records stay
the allocated blocks, over every run and for every pointer the client may pass. From
there `sn_free` releases the block it is asked for or nothing at all, and `doexit`
releases what is left, as long as no call leaves the mutex of an empty list locked
(`blocks_freed_once`). After that the calls of other threads wait for ever
(`leaked_lock_blocks_free`).
-/

namespace LibSafetynet

open Logic Prog PlatMutex ListState AllocManager

/-- Neither `sn_realloc` nor `sn_register*`, and the client leaves its blocks to the library. -/
def Op.KeepsBlocks : Op → Prop
  | .realloc _ _ | .register _ | .registerSize _ _ | .clientMalloc _ | .clientFree _ => False
  | _ => True

instance : DecidablePred Op.KeepsBlocks := fun op => by
  apply Op.casesOn (motive := fun op => Decidable op.KeepsBlocks) op <;> intros <;>
    first | exact instDecidableTrue | exact instDecidableFalse

/-- The library after `sn_free` of the block of the entry `a`. -/
structure FreedOne (cfg : Config) (s : Lib) (a : Addr) (s' : Lib) : Prop where
  blocks : s'.heap.blocks = s.heap.blocks.erase (nodeAt s.list.nodes a).data
  freed : s'.heap.freed = s.heap.freed ++ [freedRecord cfg s a]
  entries : ∃ A B, s.list.entries = A ++ a :: B ∧ s'.list.entries = A ++ B ∧
    (A ++ B).map (item s'.list) = (A ++ B).map (item s.list)

/-- The library after `sn_free` of a pointer that is not tracked. -/
def ErrorOnly (s : Lib) (p : Addr) (s' : Lib) : Prop :=
  s' = { s with errorCode := if p = NULL then .snErrNullPtr else .snErrNoAdderFound }

/-- The call does not leave the mutex of an empty list locked. -/
def NoLeak (l : Env × Op) (s : Lib) : Prop := ¬ (CanLeak l.1 s.list ∧ LeakCase l s)

/-- What is asked of one state: the records are the allocated blocks, and every free,
at exit too, is of a block that is allocated at that moment. A free of a pointer that is not
tracked returns and only sets an error code exactly if it leaves no lock behind. -/
structure FreeSafe (cfg : Config) (s : Lib) : Prop where
  nodup : (s.list.entries.map fun a => (nodeAt s.list.nodes a).data).Nodup
  live : ∀ p, s.heap.Live p ↔ ∃ a ∈ s.list.entries, (nodeAt s.list.nodes a).data = p
  tracked : ∀ env, ∀ a ∈ s.list.entries, wp (snFree cfg (nodeAt s.list.nodes a).data) env
    (fun _ s' => FreedOne cfg s a s') (fun _ _ => False) s
  untracked : ∀ env p, (∀ a ∈ s.list.entries, (nodeAt s.list.nodes a).data ≠ p) →
    ((∃ v s', snFree cfg p env s = .done v s' ∧ ErrorOnly s p s') ↔ NoLeak (env, .free p) s)
  exit : ∀ env, s.doFree = true → wp (doexit cfg) env
    (fun _ s' => (∀ p, ¬ s'.heap.Live p) ∧
      s'.heap.freed = s.heap.freed ++ s.list.entries.map (freedRecord cfg s))
    (fun _ _ => False) s

instance (l : Env × Op) (s : Lib) : Decidable (LeakCase l s) := by
  obtain ⟨env, op⟩ := l
  cases op <;> unfold LeakCase <;> infer_instance

instance (l : Env × Op) (s : Lib) : Decidable (NoLeak l s) :=
  inferInstanceAs (Decidable ¬ ((_ ∧ _) ∧ _))

/-! ## The invariant of the run -/

/-- The slots are coherent and the records are the allocated blocks. -/
structure Guarded (L : List Addr) (s : Lib) : Prop where
  describes : Describes s.manager (L.map (item s.list))
  owned : Owned (· ≤ ·) s.heap (L.map (record s.list))

section Guarded

variable {cfg : Config} {env : Env} {l : Env × Op} {s₀ s s' : Lib} {L₀ L L' : List Addr} {p : Addr}

theorem Trans.guarded (h : Trans cfg l.1 l.2 s₀ L s L' s') (hop : l.2.KeepsBlocks)
    (hb₀ : Base s₀ L₀) (hb : Base s L) (hg : Guarded L s) : Guarded L' s' := by
  obtain ⟨env, op⟩ := l
  constructor
  · refine h.describes hb hb₀ (fun hmoved => ?_) hg.describes
    cases op with
    | realloc _ _ => exact hop
    | _ => exact hmoved
  · refine Effect.owned (h.effect hb ?_ (fun hreg => ?_) ?_ hg.owned.nodup) Nat.le_refl
      (Or.inl fun _ _ => id) hg.owned
    · cases op with
      | register _ | clientMalloc _ | clientFree _ => exact hop
      | _ => trivial
    · cases op with
      | registerSize _ _ => exact hop
      | _ => exact hreg
    · exact fun p e hlook he _ => hg.describes.lookup hb hlook he

theorem Guarded.sound (hg : Guarded L s) (hb : Base s L) : Sound s L := by
  refine ⟨hg.describes.slotsLive hb, fun a ha => ?_⟩
  have hr : record s.list a ∈ L.map (record s.list) := List.mem_map_of_mem ha
  exact ⟨hg.owned.live_of_mem hr, hg.owned.size _ hr⟩

theorem Guarded.ne_null (hg : Guarded L s) {a : Addr} (ha : a ∈ L) :
    (nodeAt s.list.nodes a).data ≠ NULL := by
  intro hnull
  have hlive := hg.owned.live_of_mem (r := record s.list a) (List.mem_map_of_mem ha)
  exact hg.owned.wellFormed.null (hnull ▸ hlive)

end Guarded

/-! ## What the invariant gives -/

section Safe

variable {cfg : Config} {env : Env} {s s' : Lib} {L : List Addr} {p : Addr}

theorem Guarded.tracked (hg : Guarded L s) (hb : Base s L) (hu : Unlocked s L) {a : Addr}
    (ha : a ∈ L) : wp (snFree cfg (nodeAt s.list.nodes a).data) env
      (fun _ s' => FreedOne cfg s a s') (fun _ _ => False) s := by
  have hne := hg.ne_null ha
  have hL : L ≠ [] := List.ne_nil_of_mem ha
  refine wp_snFree hb (fun hbl _ => ?_) (fun hdead _ => hdead ((hg.sound hb).freeable _))
    (fun hnull => absurd hnull hne) (fun _ _ hnone => ?_) fun e s' L' h => ?_
  · rcases hbl with hbl | hbl
    · exact hu.alloc.not_blocks _ hbl
    · exact (hu.list hL).not_blocks _ hbl.2
  · exact absurd rfl ((findPtr_eq_null fun h0 => hb.rep.ne_null h0 rfl).mp hnone a ha)
  · have hdata := hg.describes.lookup hb h.lookup h.mem
    -- each address is recorded once, so the lookup found `a` itself
    have hnodup := hg.owned.nodup
    obtain rfl : e = a := by
      rw [List.map_map] at hnodup
      exact List.inj_on_of_nodup_map hnodup h.mem ha hdata
    obtain ⟨A, B, hsplit, hrest, hitems⟩ := h.list.items_split hb.rep hnodup h.mem rfl
    obtain ⟨-, -, hheap⟩ := h.heap.live hne
    constructor
    · rw [hheap]
    · rw [hheap]
      rfl
    · refine ⟨A, B, ?_, ?_, hitems⟩
      · rw [hb.rep.entries_eq, hsplit]
      · rw [(h.list.rep hb.rep).entries_eq, hrest]

theorem Guarded.untracked (hg : Guarded L s) (hb : Base s L) (hu : Unlocked s L)
    (hlock : IsFree s.list.mutex) (hp : ∀ a ∈ L, (nodeAt s.list.nodes a).data ≠ p) :
    (∃ v s', snFree cfg p env s = .done v s' ∧ ErrorOnly s p s') ↔ NoLeak (env, .free p) s := by
  have hleak : LeakCase (env, .free p) s ↔ p ≠ NULL ∧ Ghost s.list := Iff.rfl
  refine wp.returns_iff (wp_snFree hb (fun hbl _ => ?_)
    (fun hdead _ => absurd ((hg.sound hb).freeable p) hdead) (fun hnull => ?_)
    (fun hne _ _ => ?_) fun e s' L' h => ?_)
  · rcases hbl with hbl | hbl
    · exact absurd hbl (hu.alloc.not_blocks _)
    · exact absurd hbl.2 (hlock.not_blocks _)
  · refine iff_of_true ?_ fun hl => (hleak.mp hl.2).1 hnull
    rw [ErrorOnly, if_pos hnull, hu.alloc.release_eq]
  · -- the search leaves the mutex as it was exactly if it leaves it free
    rw [ErrorOnly, if_neg hne, NoLeak, hleak, and_iff_right hne, hu.alloc.release_eq,
      ← isFree_scanMutex hb.rep hlock]
    constructor
    · intro heq
      have hmutex : scanMutex env.tid s.list L = s.list.mutex :=
        congrArg (fun s : Lib => s.list.mutex) heq
      rw [hmutex]
      exact hlock
    · intro hfree
      have hmutex : scanMutex env.tid s.list L = s.list.mutex := by
        rw [← hfree.release_eq, release_scanMutex, hlock.release_eq]
      rw [hmutex]
  · exact absurd (hg.describes.lookup hb h.lookup h.mem) (hp e h.mem)

theorem Guarded.freeSafe (hg : Guarded L s) (hb : Base s L) (hu : Unlocked s L)
    (hlock : IsFree s.list.mutex) : FreeSafe cfg s := by
  have hentries := hb.rep.entries_eq
  constructor
  · rw [hentries]
    have hnodup := hg.owned.nodup
    rw [List.map_map] at hnodup
    exact hnodup
  · intro p
    rw [hentries, hg.owned.live, List.map_map, List.mem_map]
    exact Iff.rfl
  · intro env a ha
    rw [hentries] at ha
    exact hg.tracked hb hu ha
  · intro env p hp
    rw [hentries] at hp
    exact hg.untracked hb hu hlock hp
  · intro env hfree
    rw [hentries]
    refine wp_doexit hb hg.owned hfree (fun hbl _ => hlock.not_blocks _ hbl.2) ?_
    intro s' hdead hfreed _ _
    exact ⟨hdead, hfreed⟩

end Safe

/-- Without a leak the mutex of the list is free between the calls. -/
theorem list_free_run {cfg : Config} {s₀ s : Lib} {ls : List (Env × Op)} (h₀ : Started s₀)
    (hok : Along (libStep cfg) NoLeak ls s₀) (hrun : run (libStep cfg) ls s₀ = some s) :
    IsFree s.list.mutex := by
  have hl := loaded_of_started h₀
  refine (run_invariant (I := fun s => (∃ L, Base s L) ∧ IsFree s.list.mutex) ?_
    ⟨⟨[], hl.base⟩, hl.listFree⟩ hok hrun).2
  rintro l s₁ s₂ ⟨⟨L, hb⟩, hfree⟩ hno hstep
  obtain ⟨L', hspec⟩ := libStep_meets hb hstep
  exact ⟨libStep_base hb hstep, (hspec.mutex.leak hb.rep hfree).mpr hno⟩

/-- **Blocks are freed once, by the right call.** In every state of a run without
`sn_realloc` and registration, in which no call leaves the mutex of an empty list locked, the
tracked entries are the allocated blocks, a free of a tracked block releases that block and
its entry, any other free returns and only sets an error code, unless it is the first to leave
the mutex locked, and `doexit` releases every remaining block once. -/
theorem blocks_freed_once {cfg : Config} {s₀ s : Lib} {ls : List (Env × Op)} (h₀ : Started s₀)
    (hops : ∀ l ∈ ls, l.2.KeepsBlocks) (hok : Along (libStep cfg) NoLeak ls s₀)
    (hrun : run (libStep cfg) ls s₀ = some s) : FreeSafe cfg s := by
  obtain ⟨L, hb, hu, hg⟩ := run_keeps (P := fun l _ => l.2.KeepsBlocks) (I := Guarded)
    (fun s hl => ⟨hl.describes, hl.owned⟩)
    (fun _ _ _ hok hb₀ _ _ _ _ _ _ hb hg htrans => htrans.guarded hok hb₀ hb hg) h₀
    (Along.of_forall (fun l hl _ => hops l hl) _) hrun
  exact hg.freeSafe hb hu (list_free_run h₀ hok hrun)

/-- Blocks are allocated, cached, freed and allocated again at the same address; a pointer that
was never allocated and one that was freed are given to `sn_free`, and at the end nothing is
left but a length of 1. -/
theorem blocks_freed_once_at :
    ∃ s s', Reachable ⟨true⟩ s ∧ s.list.entries = [256, 128] ∧ FreeSafe ⟨true⟩ s ∧
      run (libStep ⟨true⟩) [(Env.plain 2 0 0, .free 8192), (Env.plain 1 0 0, .free 4096)] s =
        some s' ∧ Ghost s'.list ∧ FreeSafe ⟨true⟩ s' := by
  let calls : List (Env × Op) := [(Env.plain 1 128 4096, .malloc 8),
    (Env.plain 1 256 8192, .calloc 2 8), (Env.plain 1 0 0, .requestToFastCache 4096),
    (Env.plain 1 0 0, .free 4096), (Env.plain 2 0 0, .free 4096),
    (Env.plain 1 128 4096, .malloc 16), (Env.plain 1 0 0, .free 12345)]
  let frees : List (Env × Op) := [(Env.plain 2 0 0, .free 8192), (Env.plain 1 0 0, .free 4096)]
  have hsome : ((doinit (Env.plain 1 64 0) .blank).done?.bind fun s₀ =>
      (run (libStep ⟨true⟩) calls s₀).bind fun s =>
        (run (libStep ⟨true⟩) frees s).map fun s' =>
          (s.list.entries, decide (Ghost s'.list),
            decide (Along (libStep ⟨true⟩) NoLeak calls s₀),
            decide (Along (libStep ⟨true⟩) NoLeak (calls ++ frees) s₀))) =
      some ([256, 128], true, true, true) := by
    decide +kernel
  obtain ⟨s₀, h₀, hsome⟩ := Option.bind_eq_some_iff.mp hsome
  obtain ⟨s, hrun, hsome⟩ := Option.bind_eq_some_iff.mp hsome
  obtain ⟨s', hrun', hval⟩ := Option.map_eq_some_iff.mp hsome
  obtain ⟨hentries, hval⟩ := Prod.mk.inj hval
  obtain ⟨hghost, hval⟩ := Prod.mk.inj hval
  obtain ⟨hok, hok'⟩ := Prod.mk.inj hval
  have hstart : Started s₀ := started_of_done h₀
  have hall : run (libStep ⟨true⟩) (calls ++ frees) s₀ = some s' := by
    rw [run_append, hrun]
    exact hrun'
  exact ⟨s, s', ⟨s₀, calls, hstart, hrun⟩, hentries,
    blocks_freed_once hstart (by decide) (of_decide_eq_true hok) hrun, hrun',
    of_decide_eq_true hghost,
    blocks_freed_once hstart (by decide) (of_decide_eq_true hok') hall⟩

/-- Two blocks are freed in the order of their allocation, which leaves `len` at 1. Then a free
of a pointer that is not tracked leaves the list's mutex with its thread, and neither a free by
another thread nor the exit there returns. -/
theorem leaked_lock_blocks_free :
    ((doinit (Env.plain 1 64 0) .blank).done?.bind fun s₀ =>
      (run (libStep ⟨true⟩) [(Env.plain 1 128 4096, .malloc 8), (Env.plain 1 192 8192, .malloc 8),
        (Env.plain 1 0 0, .free 4096), (Env.plain 1 0 0, .free 8192)] s₀).bind fun s =>
        (libStep ⟨true⟩ (Env.plain 1 0 0, .free 12345) s).map fun s' =>
          (decide (s.list.mutex = s'.list.mutex), s'.list.mutex, s'.doFree,
            (libStep ⟨true⟩ (Env.plain 2 0 0, .free 12345) s').isSome,
            (doexit ⟨true⟩ (Env.plain 2 0 0) s').done?.isSome)) =
      some (false, some ⟨some 1, 1⟩, true, false, false) := by
  decide +kernel

end LibSafetynet
