import LibSafetynet.FreeSafety

/-!
# The recorded size is the real size

In runs of the five allocation functions the size in an entry is the length of its
block, unless `sn_calloc` was granted several elements and recorded one. Then the
whole block is reported by `sn_query_size` and wiped by `sn_free`.
-/

namespace LibSafetynet

open Logic Prog PlatMutex ListState AllocManager

/-- The functions of `sn_allocator.c`, and the client's writes to its blocks. -/
def Op.Allocates : Op → Prop
  | .malloc _ | .calloc _ _ | .mallocPreInitialized _ _ | .realloc _ _ | .free _
  | .clientWrite _ _ => True
  | _ => False

instance : DecidablePred Op.Allocates := fun op => by
  apply Op.casesOn (motive := fun op => Decidable op.Allocates) op <;> intros <;>
    first | exact instDecidableTrue | exact instDecidableFalse

/-- The records are whole: in the entries, in the answers of `sn_query_size` and in
what `sn_free` wipes. -/
structure RecordsWhole (cfg : Config) (s : Lib) : Prop where
  size : ∀ a ∈ s.list.entries, s.heap.Live (nodeAt s.list.nodes a).data ∧
    (nodeAt s.list.nodes a).size.toNat = (s.heap.bytes (nodeAt s.list.nodes a).data).length
  query : ∀ env, ∀ a ∈ s.list.entries, wp (snQuerySize (nodeAt s.list.nodes a).data) env
    (fun v _ => v.toNat = (s.heap.bytes (nodeAt s.list.nodes a).data).length) (fun _ _ => False) s
  wiped : cfg.sanitizeMemoryOnFree → ∀ env, ∀ a ∈ s.list.entries,
    wp (snFree cfg (nodeAt s.list.nodes a).data) env
      (fun _ s' => s'.heap.freed = s.heap.freed ++ [((nodeAt s.list.nodes a).data,
        List.replicate (s.heap.bytes (nodeAt s.list.nodes a).data).length 0)])
      (fun _ _ => False) s

/-- The invariant: recorded sizes are lengths, and no slot is in use. -/
structure Recorded (L : List Addr) (s : Lib) : Prop where
  owned : Owned (· = ·) s.heap (L.map (record s.list))
  bare : s.manager.cacheList = fun _ => .empty

section Recorded

variable {cfg : Config} {env : Env} {l : Env × Op} {s₀ s s' : Lib} {L₀ L L' : List Addr}

/-- None of the five functions fills a slot. -/
theorem Trans.bare (h : Trans cfg l.1 l.2 s₀ L s L' s') (hop : l.2.Allocates)
    (hs : s.manager.cacheList = fun _ => .empty) : s'.manager.cacheList = fun _ => .empty := by
  cases h with
  | quiet hq => rw [hq.cacheList, hs]
  | pass hpass _ _ =>
    exfalso
    revert hop hpass
    cases l.2 <;> simp [Op.Allocates, Op.RunsPass]
  | put hput _ _ _ _ =>
    rw [hput] at hop
    exact hop.elim
  | cleared _ hdrop _ | freed _ _ _ _ hdrop _ _ =>
    funext i
    rcases hdrop.slot_or i with hempty | heq
    · exact hempty
    · exact heq.trans (congrFun hs i)
  | granted _ hgr => rw [hgr.manager, hs]
  | registered _ _ _ hm _ | tagged _ _ _ hm _ | wrote _ _ _ hm _ => rw [hm, hs]
  | realloced _ _ _ _ _ _ _ hm => rw [hm, hs]
  | clientAlloc _ _ _ hm _ | clientFree _ _ _ hm _ => rw [hm, hs]

theorem Recorded.guarded (h : Recorded L s) : Guarded L s := by
  constructor
  · intro i hi
    rw [h.bare] at hi
    exact absurd rfl hi
  · exact ⟨h.owned.wellFormed, h.owned.nodup, h.owned.live, fun r hr => (h.owned.size r hr).le⟩

theorem Trans.recorded (h : Trans cfg l.1 l.2 s₀ L s L' s') (hb : Base s L)
    (hop : l.2.Allocates) (hsafe : ¬ GrantsMore l s₀) (hr : Recorded L s) : Recorded L' s' := by
  obtain ⟨env, op⟩ := l
  refine ⟨Effect.owned (h.effect hb ?_ (fun hreg => ?_) (fun p e hlook he _ => ?_) hr.owned.nodup)
    (fun _ => rfl) (Or.inr hsafe) hr.owned, h.bare hop hr.bare⟩
  · cases op with
    | register _ | clientMalloc _ | clientFree _ => exact hop
    | _ => trivial
  · cases op with
    | registerSize _ _ => exact hop
    | _ => exact hreg
  · exact hr.guarded.describes.lookup hb hlook he

theorem Loaded.recorded (h : Loaded s) : Recorded [] s := by
  refine ⟨h.owned, ?_⟩
  rw [h.manager]
  rfl

/-! ## What the invariant gives -/

/-- `sn_query_size` of a block that is recorded once. -/
theorem wp_snQuerySize (hb : Base s L) (hu : Unlocked s L) (hg : Guarded L s) {a : Addr}
    (ha : a ∈ L) : wp (snQuerySize (nodeAt s.list.nodes a).data) env
      (fun v _ => v = (nodeAt s.list.nodes a).size) (fun _ _ => False) s := by
  have hfree := hu.list (List.ne_nil_of_mem ha)
  have hne := hg.ne_null ha
  rw [snQuerySize, wp_bind]
  refine wp_memmanWork hb.rep (fun hbl _ => ?_)
    (fun hdead _ => hdead (hg.describes.slotsLive hb)) fun _ hopen => ?_
  · rcases hbl with hbl | hbl
    · exact hu.alloc.not_blocks _ hbl
    · exact hfree.not_blocks _ hbl.2
  have hsame : SameList s.list (s.worked env L).list := sameList_worked hb.rep
  rw [wp_ite]
  refine ⟨fun hnull => absurd hnull hne, fun _ => ?_⟩
  rw [wp_bind]
  refine wp_getByPtr (base_worked hb) hne
    (fun hbl _ => not_scanBlocks_scanned (L := L) hopen hsame.len rfl hbl) fun s₂ _ h₂ => ?_
  -- the search ends at `a`, the only entry for its data
  have hfound : findPtr (s.worked env L).list L (nodeAt s.list.nodes a).data = a := by
    rw [hsame.findPtr]
    have hne : findPtr s.list L (nodeAt s.list.nodes a).data ≠ NULL := fun hnull =>
      (findPtr_eq_null fun h0 => hb.rep.ne_null h0 rfl).mp hnull a ha rfl
    obtain ⟨hmem, hdata⟩ := findPtr_mem hne
    have hnodup := hg.owned.nodup
    rw [List.map_map] at hnodup
    exact List.inj_on_of_nodup_map hnodup hmem ha hdata
  have hlive := (h₂.base (base_worked hb)).rep.live_of_mem ha
  rw [hfound, wp_ite]
  refine ⟨fun hnull => absurd hnull (hb.rep.ne_null ha), fun _ => ?_⟩
  rw [wp_onList, linkedListEntryGetSize, wp_ite]
  refine ⟨fun hnull => absurd hnull (hb.rep.ne_null ha), fun _ => ?_⟩
  rw [wp_bind]
  refine wp_deref_live hlive ?_
  rw [wp_pure, h₂.quiet.list.size, hsame.size]

theorem Recorded.recordsWhole (h : Recorded L s) (hb : Base s L) (hu : Unlocked s L) :
    RecordsWhole cfg s := by
  have hsize : ∀ a ∈ L, (nodeAt s.list.nodes a).size.toNat =
      (s.heap.bytes (nodeAt s.list.nodes a).data).length := fun a ha =>
    h.owned.size (record s.list a) (List.mem_map_of_mem ha)
  constructor
  · intro a ha
    rw [hb.rep.entries_eq] at ha
    refine ⟨?_, hsize a ha⟩
    exact h.owned.live_of_mem (r := record s.list a) (List.mem_map_of_mem ha)
  · intro env a ha
    rw [hb.rep.entries_eq] at ha
    refine (wp_snQuerySize hb hu h.guarded ha).imp fun v _ hv => ?_
    rw [hv]
    exact hsize a ha
  · intro hc env a ha
    rw [hb.rep.entries_eq] at ha
    refine (h.guarded.tracked hb hu ha).imp fun _ s' hfreed => ?_
    rw [hfreed.freed, freedRecord, sanitized, if_pos hc, hsize a ha, List.drop_length,
      List.append_nil]

end Recorded

/-- **Sizes are recorded whole** in every state of a run of the allocation functions
in which `sn_calloc` is granted single elements only. -/
theorem recorded_of_single_elements {cfg : Config} {s₀ s : Lib} {ls : List (Env × Op)}
    (h₀ : Started s₀) (hops : ∀ l ∈ ls, l.2.Allocates)
    (hok : Along (libStep cfg) (fun l s => ¬ GrantsMore l s) ls s₀)
    (hrun : run (libStep cfg) ls s₀ = some s) : RecordsWhole cfg s := by
  obtain ⟨L, hb, hu, hr⟩ := run_keeps (P := fun l s => l.2.Allocates ∧ ¬ GrantsMore l s)
    (I := Recorded) (fun _ => Loaded.recorded)
    (fun _ _ _ hok _ _ _ _ _ _ _ hb hr htrans => htrans.recorded hb hok.1 hok.2 hr) h₀
    ((Along.of_forall (fun l hl _ => hops l hl) s₀).and hok) hrun
  exact hr.recordsWhole hb hu

theorem recorded_of_single_elements_at :
    ∃ s₀ s, Started s₀ ∧ run (libStep ⟨true⟩)
        [(Env.plain 1 128 4096, .malloc 8), (Env.plain 1 256 8192, .calloc 1 16),
          (Env.plain 1 0 12288, .realloc 4096 24), (Env.plain 1 0 0, .free 8192)] s₀ = some s ∧
      s.list.entries = [128] ∧ RecordsWhole ⟨true⟩ s := by
  have hsome : ((doinit (Env.plain 1 64 0) .blank).done?.bind (run (libStep ⟨true⟩)
      [(Env.plain 1 128 4096, .malloc 8), (Env.plain 1 256 8192, .calloc 1 16),
        (Env.plain 1 0 12288, .realloc 4096 24), (Env.plain 1 0 0, .free 8192)])).map
          (·.list.entries) = some [128] := by
    decide +kernel
  obtain ⟨s, hs, hentries⟩ := Option.map_eq_some_iff.mp hsome
  obtain ⟨s₀, h₀, hrun⟩ := Option.bind_eq_some_iff.mp hs
  have hstart : Started s₀ := started_of_done h₀
  refine ⟨s₀, s, hstart, hrun, hentries, recorded_of_single_elements hstart (by decide) ?_ hrun⟩
  exact ⟨id, fun _ _ => ⟨fun hmore => hmore.2.1 rfl, fun _ _ => ⟨id, fun _ _ => ⟨id,
    fun _ _ => trivial⟩⟩⟩⟩

/-- `sn_calloc(2, 8)` grants 16 bytes: `sn_query_size` says 8, and of the 16 bytes
that are set afterwards `sn_free` wipes 8. -/
theorem several_elements_recorded_once :
    ((doinit (Env.plain 1 64 0) .blank).done?.bind (run (libStep ⟨true⟩)
      [(Env.plain 1 128 4096, .calloc 2 8),
        (Env.plain 1 0 0, .clientWrite 4096 (List.replicate 16 1))])).map (fun s =>
        ((s.heap.bytes 4096).length, (snQuerySize 4096 (Env.plain 1 0 0) s).value?,
          (libStep ⟨true⟩ (Env.plain 1 0 0, .free 4096) s).map (·.heap.freed.map (·.2))))
      = some (16, some 8, some [List.replicate 8 0 ++ List.replicate 8 1]) := by
  decide +kernel

end LibSafetynet
