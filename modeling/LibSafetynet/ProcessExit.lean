import LibSafetynet.Exit
import LibSafetynet.RegistryRuns

/-!
# The exit after a run

`wp_doexit` asks that every allocated block is recorded. A client that respects the
library may also keep blocks of its own and register them late, so here the exit is
followed from any orderly state: with the automatic free on it releases what is tracked
and leaves the rest alone, with it off it touches no block (`exit_releases`).

What is left when the process ends was handed out by the client's own allocator
(`exit_leaves_own`): the library allocates nothing that it does not track.
-/

namespace LibSafetynet

open Logic Prog PlatMutex ListState AllocManager

/-! ## The scan with `freeOnListFree` -/

/-- What `plat_free` is given for a tracked block, and the bytes it finds there. -/
def TrackedBlock.given (cfg : Config) (h : ClientHeap) (t : TrackedBlock) : Addr × List UInt8 :=
  (t.data, sanitized cfg t.size (h.bytes t.data))

/-- The memory `h` once the blocks `done` are released, with `rest` still to come. -/
structure Exiting (cfg : Config) (h : ClientHeap) (done rest : List TrackedBlock)
    (h' : ClientHeap) : Prop where
  backed : Backed h' (rest.map TrackedBlock.record)
  live : ∀ p, h'.Live p ↔ h.Live p ∧ ∀ t ∈ done, t.data ≠ p
  bytes : ∀ p, h'.Live p → h'.bytes p = h.bytes p
  freed : h'.freed = h.freed ++ done.map (TrackedBlock.given cfg h)

section Scan

variable {cfg : Config} {env : Env} {h h' : ClientHeap} {done rest : List TrackedBlock}
variable {t : TrackedBlock} {s : Lib} {L : List Addr}

theorem Exiting.start (hb : Backed h (rest.map TrackedBlock.record)) :
    Exiting cfg h [] rest h := by
  refine ⟨hb, fun p => ?_, fun _ _ => rfl, ?_⟩
  · simp
  · simp

/-- The next block is released. -/
theorem Exiting.next (hx : Exiting cfg h done (t :: rest) h') : Exiting cfg h (done ++ [t]) rest
    { blocks := h'.blocks.erase t.data
      freed := h'.freed ++ [(t.data, sanitized cfg t.size (h'.bytes t.data))] } := by
  have hlive : h'.Live t.data := hx.backed.live t.record List.mem_cons_self
  have hdrop : ∀ p, (h'.drop t.data).Live p ↔ h.Live p ∧ ∀ u ∈ done ++ [t], u.data ≠ p := by
    intro p
    rw [ClientHeap.live_drop, hx.live]
    constructor
    · rintro ⟨hne, hp, hdone⟩
      refine ⟨hp, fun u hu => ?_⟩
      rcases List.mem_append.mp hu with hu | hu
      · exact hdone u hu
      · rw [List.mem_singleton.mp hu]
        exact Ne.symm hne
    · rintro ⟨hp, hall⟩
      refine ⟨Ne.symm (hall t (by simp)), hp, fun u hu => hall u ?_⟩
      exact List.mem_append_left _ hu
  constructor
  · exact Backed.congr (Backed.release (r := t.record) hx.backed) rfl
  · exact hdrop
  · intro p hp
    obtain ⟨hne, hp'⟩ := ClientHeap.live_drop.mp hp
    exact (ClientHeap.bytes_drop_of_ne hne).trans (hx.bytes p hp')
  · show h'.freed ++ _ = _
    rw [hx.freed, hx.bytes _ hlive]
    simp [TrackedBlock.given]

/-- How the exit treats the memory: it releases the entries `ts`, if it is to. -/
def Exited (cfg : Config) (s : Lib) (ts : List TrackedBlock) (h : ClientHeap) : Prop :=
  if s.doFree then Exiting cfg s.heap ts [] h else h = s.heap

/-- The scan of `doexit` with its worker. -/
theorem wp_exitScan {E : Stop → ListState → Prop} {Q : Addr × ClientHeap → ListState → Prop}
    (hb : Base s L) (hc : (s.viewAt L).Consistent)
    (hblock : ScanBlocks env.tid s.list → E .blocked s.list)
    (hQ : ¬ ScanBlocks env.tid s.list → ∀ h l, SameList s.list l →
      l.mutex = scanMutex env.tid s.list L → Exited cfg s (L.map (tracking s.list)) h →
      Q (NULL, h) l) :
    wp (linkedListForEach (freeOnListFree cfg s.doFree) s.heap) env Q E s.list := by
  let J : List Addr → ClientHeap → Prop := fun pre h => ∀ rest, L = pre ++ rest →
    if s.doFree then Exiting cfg s.heap (pre.map (tracking s.list)) (rest.map (tracking s.list)) h
    else h = s.heap
  refine wp_linkedListForEach_visit (J := fun pre h _ => J pre h) hb.rep hblock
    (fun _ _ _ _ hJ => hJ) (fun rest hrest => ?_) (fun pre a rest i h l hL hsame hJ => ?_)
    fun hopen h l hsame hJ hmutex => ?_
  · obtain rfl : L = rest := hrest
    split_ifs
    · exact .start hc
    · rfl
  · have hJ₁ := hJ _ hL
    have hnext : ∀ rest', L = pre ++ [a] ++ rest' → rest' = rest := by
      intro rest' hrest'
      rw [hL, List.append_assoc] at hrest'
      exact (List.cons.inj (List.append_cancel_left hrest')).2.symm
    by_cases hfree : s.doFree = true
    · rw [if_pos hfree] at hJ₁
      have hmem : a ∈ L := by simp [hL]
      have hlive := hJ₁.backed.live (tracking s.list a).record List.mem_cons_self
      have hsize := hJ₁.backed.size (tracking s.list a).record List.mem_cons_self
      rw [hfree]
      refine wp_freeOnListFree ((hsame.rep hb.rep).live_of_mem hmem) ?_ ?_ ?_
        ⟨rfl, rfl, SameList.refl _, fun rest' hrest' => ?_⟩
      · rw [hsame.data]
        exact fun hnull => hJ₁.backed.wellFormed.null (hnull ▸ hlive)
      · rw [hsame.data]
        exact hlive
      · rw [hsame.data, hsame.size]
        exact hsize
      · rw [hnext rest' hrest', if_pos hfree, hsame.data, hsame.size, List.map_append]
        exact hJ₁.next
    · rw [if_neg hfree] at hJ₁
      rw [freeOnListFree, if_pos hfree, wp_pure]
      refine ⟨rfl, rfl, SameList.refl _, fun rest' _ => ?_⟩
      rw [if_neg hfree]
      exact hJ₁
  · exact hQ hopen h l hsame hmutex (hJ [] (List.append_nil L).symm)

end Scan

/-! ## `doexit` -/

/-- What `doexit` leaves: no node, and of the memory what is not tracked. -/
structure ExitLeaves (cfg : Config) (s s' : Lib) : Prop where
  nodes : ∀ a, s'.list.nodes.lookup a = none
  nodesFreed : s'.list.freed = s.list.freed ++ s.list.entries ++ [s.list.list.head]
  untouched : s.doFree = false → s'.heap = s.heap
  released : s.doFree = true →
    s'.heap.freed = s.heap.freed ++ s.registry.entries.map (TrackedBlock.given cfg s.heap)
  live : s.doFree = true → ∀ p, s'.heap.Live p ↔ s.heap.Live p ∧ s.registry.find? p = none
  bytes : ∀ p, s'.heap.Live p → s'.heap.bytes p = s.heap.bytes p

section Doexit

variable {cfg : Config} {env : Env} {s : Lib} {L : List Addr}

theorem ExitLeaves.of_exited {s' : Lib} (hrep : s.list.Rep L)
    (hx : Exited cfg s (s.registry.entries) s'.heap)
    (hdead : ∀ a, (s'.list.nodes.lookup a).isNone)
    (hfreed : s'.list.freed = s.list.freed ++ L ++ [s.list.list.head]) : ExitLeaves cfg s s' := by
  unfold Exited at hx
  have hnone : ∀ p, s.registry.find? p = none ↔ ∀ t ∈ s.registry.entries, t.data ≠ p := by
    simp [Registry.find?]
  refine ⟨fun a => Option.isNone_iff_eq_none.mp (hdead a), ?_, fun hoff => ?_, fun hon => ?_,
    fun hon p => ?_, fun p hp => ?_⟩
  · rw [hfreed, hrep.entries_eq]
  · simpa [hoff] using hx
  · rw [if_pos hon] at hx
    exact hx.freed
  · rw [if_pos hon] at hx
    rw [hx.live, hnone]
  · split_ifs at hx with hfree
    · exact hx.bytes p hp
    · rw [hx]

theorem wp_doexit_of_consistent {E : Stop → Lib → Prop} {Q : Unit → Lib → Prop} (hb : Base s L)
    (hc : (s.viewAt L).Consistent) (hblock : ScanBlocks env.tid s.list → ∀ s', E .blocked s')
    (hQ : ∀ s', ExitLeaves cfg s s' → Q () s') : wp (doexit cfg) env Q E s := by
  have hentries : s.registry.entries = L.map (tracking s.list) :=
    congrArg Registry.entries (registry_eq hb.rep)
  -- the second half, from the list as the first half leaves it
  have hdestroy : ∀ l h, SameList s.list l → ¬ ScanBlocks env.tid l →
      Exited cfg s s.registry.entries h →
      wp (onList linkedListDestroy) env Q E
        { s with list := l, heap := h, allocMutex := none } := by
    intro l h hsame hopen hx
    rw [wp_onList]
    refine wp_linkedListDestroy (hsame.rep hb.rep) (fun hbl => absurd hbl hopen)
      fun l' hdead hfreed => hQ _ (.of_exited hb.rep hx hdead ?_)
    rw [hfreed, hsame.freed, hsame.head]
  rw [doexit, wp_bind, wp_onList, linkedListGetSize, wp_bind, wp_getList, wp_pure, wp_bind, wp_when]
  constructor
  · intro _
    rw [wp_bind, wp_get, wp_bind, wp_onList]
    refine wp_exitScan hb hc (fun hbl => hblock hbl _) fun hopen h l hsame hmutex hx => ?_
    rw [wp_modify, wp_bind, wp_modify]
    refine hdestroy l h hsame (not_scanBlocks_scanned hopen hsame.len hmutex) ?_
    rw [hentries]
    exact hx
  · intro hlen
    rw [not_not] at hlen
    have hnil : L = [] := List.length_eq_zero_iff.mp (Nat.le_zero.mp (hlen ▸ hb.rep.len))
    rw [wp_bind, wp_modify]
    refine hdestroy s.list s.heap (SameList.refl _) (fun hbl => hbl.1 hlen) ?_
    rw [hentries, hnil, Exited]
    split_ifs
    · refine .start ?_
      rw [hnil] at hc
      exact hc
    · rfl

end Doexit

/-- **What the exit does after a run** of a client that respects the library. With the
automatic free on, each tracked block goes to `plat_free` once, in list order, and no other
block is touched; with it off no block is. The exit can only wait for a lock that another
thread left over an empty list. -/
theorem exit_releases {cfg : Config} {s₀ s : Lib} {ls : List (Env × Op)} (h₀ : Started s₀)
    (hok : Along (libStep cfg) Respects ls s₀) (hrun : run (libStep cfg) ls s₀ = some s)
    (env : Env) :
    (s.registry.entries.map TrackedBlock.data).Nodup ∧
      ((∃ s', doexit cfg env s = .done () s' ∧ ExitLeaves cfg s s') ∨
        s.registry.entries = [] ∧ Blocks env.tid s.list.mutex ∧
          ∃ s', doexit cfg env s = .stop .blocked s') := by
  obtain ⟨L, hL⟩ := (loaded_of_started h₀).orderly.run hok hrun
  constructor
  · have hnodup := hL.registry_consistent.nodup
    rw [Registry.records, List.map_map] at hnodup
    exact hnodup
  by_cases hblock : ScanBlocks env.tid s.list
  · right
    have hempty : L = [] := by
      by_contra hne
      exact (hL.unlocked.list hne).not_blocks _ hblock.2
    refine ⟨?_, hblock.2, ?_⟩
    · rw [registry_eq hL.base.rep, hempty]
      rfl
    · have hstop : wp (doexit cfg) env (fun _ _ => False) (fun e _ => e = .blocked) s := by
        rw [doexit, wp_bind, wp_onList, linkedListGetSize, wp_bind, wp_getList, wp_pure, wp_bind,
          wp_when]
        refine ⟨fun _ => ?_, fun hlen => absurd hblock.1 hlen⟩
        rw [wp_bind, wp_get, wp_bind, wp_onList]
        exact wp_exitScan hL.base hL.consistent (fun _ => rfl) fun hopen => absurd hblock hopen
      cases hend : doexit cfg env s with
      | done v s' => exact absurd (hstop.done hend) id
      | stop e s' =>
        obtain rfl := hstop.stop hend
        exact ⟨s', rfl⟩
  · left
    have hexit : wp (doexit cfg) env (fun _ s' => ExitLeaves cfg s s') (fun _ _ => False) s :=
      wp_doexit_of_consistent hL.base hL.consistent (fun hbl => absurd hbl hblock)
        fun _ hleaves => hleaves
    obtain ⟨_, s', hdone, hleaves⟩ := hexit.exists_done
    exact ⟨s', hdone, hleaves⟩

/-- Two tracked blocks and one of the client's own. -/
theorem exit_releases_at :
    ∃ ls s₀ s s', ls = [(Env.plain 1 128 4096, .malloc 2), (Env.plain 1 0 8192, .clientMalloc 3),
        (Env.plain 2 192 16384, .calloc 2 3)] ∧
      Started s₀ ∧ run (libStep ⟨true⟩) ls s₀ = some s ∧
      s.registry.entries.map TrackedBlock.data = [4096, 16384] ∧
      doexit ⟨true⟩ (Env.plain 1 0 0) s = .done () s' ∧ ExitLeaves ⟨true⟩ s s' := by
  generalize hls : [(Env.plain 1 128 4096, Op.malloc 2),
    (Env.plain 1 0 8192, .clientMalloc 3), (Env.plain 2 192 16384, .calloc 2 3)] = ls
  have hsome : ((doinit (Env.plain 1 64 0) .blank).done?.bind fun s₀ =>
      (run (libStep ⟨true⟩) ls s₀).map fun s => s.registry.entries.map TrackedBlock.data) =
        some [4096, 16384] := by
    rw [← hls]
    decide +kernel
  obtain ⟨s₀, h₀, hsome⟩ := Option.bind_eq_some_iff.mp hsome
  obtain ⟨s, hrun, hentries⟩ := Option.map_eq_some_iff.mp hsome
  have hok : Along (libStep ⟨true⟩) Respects ls s₀ := by
    refine Along.of_forall (fun l hl s => ?_) _
    simp only [← hls, List.mem_cons, List.not_mem_nil, or_false] at hl
    rcases hl with rfl | rfl | rfl <;> exact ⟨trivial, id⟩
  obtain ⟨-, hdone | ⟨hnil, -⟩⟩ :=
    exit_releases (started_of_done h₀) hok hrun (Env.plain 1 0 0)
  · obtain ⟨s', hexit, hleaves⟩ := hdone
    exact ⟨ls, s₀, s, s', rfl, started_of_done h₀, hrun, hentries, hexit, hleaves⟩
  · rw [hnil] at hentries
    cases hentries

/-! ## What is left -/

/-- The client's own allocator answered one of the calls with `p`. -/
def HandedOut (ls : List (Env × Op)) (os : List Reply) (p : Addr) : Prop :=
  ∃ q ∈ ls.zip os, (∃ size, q.1.2 = .clientMalloc size) ∧ q.2 = .addr p

/-- One operation of the registry allocates only what it tracks or hands out. -/
theorem Registry.step_live {cfg : Config} {env : Env} {o : Oracle} {op : Op} {R : Registry}
    {p : Addr} (hok : R.Allows op) (hlive : (R.step cfg env o op).2.heap.Live p)
    (hnone : ¬ ((R.step cfg env o op).2.find? p).isSome) :
    R.heap.Live p ∧ ¬ (R.find? p).isSome ∨
      (∃ size, op = .clientMalloc size) ∧ (R.step cfg env o op).1 = .addr p := by
  by_cases hop : ∃ size, op = .clientMalloc size
  · obtain ⟨size, rfl⟩ := hop
    rw [Registry.step] at hlive hnone ⊢
    split_ifs at hlive hnone ⊢ with hadm
    · rcases ClientHeap.live_place.mp hlive with rfl | hold
      · exact Or.inr ⟨⟨size, rfl⟩, rfl⟩
      · exact Or.inl ⟨hold, hnone⟩
    · exact Or.inl ⟨hlive, hnone⟩
  · have hchange : Registry.Change R op (R.step cfg env o op).2 := Registry.step_change op
    exact Or.inl (hchange.live_untracked hok (fun size h0 => hop ⟨size, h0⟩) hlive hnone)

theorem Logic.Spec.Explains.live_untracked {cfg : Config} {ls : List (Env × Op)} {R R' : Registry}
    {os : List Reply} {p : Addr} (h : (registrySpec cfg).Explains ls R os R')
    (hlive : R'.heap.Live p) (hnone : ¬ (R'.find? p).isSome) :
    R.heap.Live p ∧ ¬ (R.find? p).isSome ∨ HandedOut ls os p := by
  induction h with
  | nil R => exact Or.inl ⟨hlive, hnone⟩
  | @cons l ls o R R₁ R' r os hallows hstep hrest ih =>
    rcases ih hlive hnone with ⟨hlive₁, hnone₁⟩ | ⟨q, hq, hgiven⟩
    · have hone : R₁ = (R.step cfg l.1 o l.2).2 := (congrArg Prod.snd hstep).symm
      rw [hone] at hlive₁ hnone₁
      rcases Registry.step_live hallows hlive₁ hnone₁ with hold | ⟨hop, hreply⟩
      · exact Or.inl hold
      · refine Or.inr ⟨(l, r), List.mem_cons_self, hop, ?_⟩
        rw [← hreply]
        exact (congrArg Prod.fst hstep).symm
    · exact Or.inr ⟨q, List.mem_cons_of_mem _ hq, hgiven⟩

/-- **The library leaks nothing**: after every run of a client that respects it, an allocated
block is tracked or was handed out by the client's own allocator, and once the exit with the
automatic free returns only the latter are left. -/
theorem exit_leaves_own {cfg : Config} {s₀ s : Lib} {ls : List (Env × Op)} {os : List Reply}
    (h₀ : Started s₀) (hok : Along (libStep cfg) Respects ls s₀)
    (hrun : history (replyStep cfg) ls s₀ = some (os, s)) :
    (∀ p, s.heap.Live p → (s.registry.find? p).isSome ∨ HandedOut ls os p) ∧
      ∀ env s', s.doFree = true → doexit cfg env s = .done () s' →
        ∀ p, s'.heap.Live p → HandedOut ls os p := by
  obtain ⟨hexplains, L, hL⟩ := (loaded_of_started h₀).orderly.explained hok hrun
  rw [started_registry h₀] at hexplains
  have howned : ∀ p, s.heap.Live p → (s.registry.find? p).isSome ∨ HandedOut ls os p := by
    intro p hlive
    by_cases htracked : (s.registry.find? p).isSome
    · exact Or.inl htracked
    · rcases hexplains.live_untracked hlive htracked with ⟨hempty, -⟩ | hgiven
      · simp [Registry.empty, ClientHeap.Live] at hempty
      · exact Or.inr hgiven
  refine ⟨howned, fun env s' hfree hexit p hlive => ?_⟩
  have hleaves : ExitLeaves cfg s s' := by
    have hspec : wp (doexit cfg) env (fun _ s' => ExitLeaves cfg s s') (fun _ _ => True) s :=
      wp_doexit_of_consistent hL.base hL.consistent (fun _ _ => trivial) fun _ hleaves => hleaves
    exact hspec.done hexit
  obtain ⟨hold, hnone⟩ := (hleaves.live hfree p).mp hlive
  exact (howned p hold).resolve_left (by simp [hnone])

/-- The client's own block is left, the tracked one is not. -/
theorem exit_leaves_own_at :
    ∃ ls os s₀ s s', ls = [(Env.plain 1 128 4096, .malloc 2),
        (Env.plain 1 0 8192, .clientMalloc 3)] ∧ os = [.addr 4096, .addr 8192] ∧
      Started s₀ ∧ history (replyStep ⟨true⟩) ls s₀ = some (os, s) ∧
      (∀ p, s.heap.Live p → (s.registry.find? p).isSome ∨ HandedOut ls os p) ∧
      doexit ⟨true⟩ (Env.plain 1 0 0) s = .done () s' ∧ s'.heap.Live 8192 ∧
      ∀ p, s'.heap.Live p → HandedOut ls os p := by
  generalize hls : [(Env.plain 1 128 4096, Op.malloc 2),
    (Env.plain 1 0 8192, .clientMalloc 3)] = ls
  have hsome : ((doinit (Env.plain 1 64 0) .blank).done?.bind fun s₀ =>
      (history (replyStep ⟨true⟩) ls s₀).bind fun q =>
        (doexit ⟨true⟩ (Env.plain 1 0 0) q.2).done?.map fun s' =>
          (q.1, q.2.doFree, decide (s'.heap.Live 8192))) =
            some ([.addr 4096, .addr 8192], true, true) := by
    rw [← hls]
    decide +kernel
  obtain ⟨s₀, h₀, hsome⟩ := Option.bind_eq_some_iff.mp hsome
  obtain ⟨⟨os, s⟩, hrun, hsome⟩ := Option.bind_eq_some_iff.mp hsome
  obtain ⟨s', hexit, hval⟩ := Option.map_eq_some_iff.mp hsome
  obtain ⟨hos, hval⟩ := Prod.mk.inj hval
  obtain ⟨hfree, hlive⟩ := Prod.mk.inj hval
  obtain ⟨_, hdone⟩ := Outcome.done?_eq_some.mp hexit
  have hok : Along (libStep ⟨true⟩) Respects ls s₀ := by
    refine Along.of_forall (fun l hl s => ?_) _
    simp only [← hls, List.mem_cons, List.not_mem_nil, or_false] at hl
    rcases hl with rfl | rfl <;> exact ⟨trivial, id⟩
  obtain ⟨howned, hleft⟩ := exit_leaves_own (started_of_done h₀) hok hrun
  exact ⟨ls, os, s₀, s, s', rfl, hos, started_of_done h₀, hrun, howned, hdone,
    of_decide_eq_true hlive, hleft _ s' hfree hdone⟩

end LibSafetynet
