import LibSafetynet.Logic.Simulation
import LibSafetynet.CacheCoherence
import LibSafetynet.RegistryCalls

/-!
# Runs of the library against the registry

A client respects the library if it keeps to `Registry.Allows` and moves no block whose
entry a slot holds (the one thing that leaves a stale slot behind). For every run of such
a client:

- the replies are those of a registry, for some choice of what it leaves open
  (`history_explained`), and every entry is for an allocated block of its own;
- the next call returns, or stops in one of the ways of `Halts`: it never touches memory
  that is not there, and no loop runs on (`call_ends`);
- a block that no call names keeps its entry and its bytes, and what is said about it
  stays the same (`untouched_block`).
-/

namespace LibSafetynet

open Logic Prog PlatMutex ListState AllocManager

/-- The registry as a specification of the library. -/
def registrySpec (cfg : Config) : Spec (Env × Op) Oracle Reply Registry where
  allows := fun l R => R.Allows l.2
  step := fun l o R => R.step cfg l.1 o l.2

/-- One completed operation, with its reply. -/
def replyStep (cfg : Config) (l : Env × Op) (s : Lib) : Option (Reply × Lib) :=
  match l.2.reply cfg l.1 s with
  | .done r s' => some (r, s')
  | .stop _ _ => none

/-- The client keeps to the registry's rules, and moves no block that a slot holds. -/
def Respects (l : Env × Op) (s : Lib) : Prop := s.registry.Allows l.2 ∧ ¬ MovesCached l s

/-- What holds between the calls of a client that respects the library. -/
structure Orderly (L : List Addr) (s : Lib) : Prop where
  base : Base s L
  unlocked : Unlocked s L
  describes : Describes s.manager (L.map (item s.list))
  consistent : (s.viewAt L).Consistent

section Runs

variable {cfg : Config} {l : Env × Op} {ls : List (Env × Op)} {os : List Reply}
variable {s₀ s s' : Lib} {L : List Addr}

theorem replyStep_eq_some {r : Reply} :
    replyStep cfg l s = some (r, s') ↔ l.2.reply cfg l.1 s = .done r s' := by
  unfold replyStep
  cases l.2.reply cfg l.1 s with
  | done r₁ s₁ => simp
  | stop e s₁ => simp

theorem silent_replyStep : silent (replyStep cfg) = libStep cfg := by
  funext l s
  rw [silent, replyStep, libStep, exec_eq, forEffect, run_bind]
  cases l.2.reply cfg l.1 s with
  | done r s' => rfl
  | stop e s' => rfl

theorem libStep_of_reply {r : Reply} (h : replyStep cfg l s = some (r, s')) :
    libStep cfg l s = some s' := by
  rw [← silent_replyStep, silent, h]
  rfl

theorem started_registry (h : Started s) : s.registry = .empty := by
  have hl := loaded_of_started h
  obtain ⟨env, hrun⟩ := h
  have herr : wlp doinit env (fun _ s => s.errorCode = .snErrOk) .blank := by
    rw [wlp, doinit, wp_bind, wp_onList]
    refine wp_linkedListNew (fun _ => trivial) fun _ l hl => ?_
    rw [wp_bind, platMutexNew, wp_bind, wp_ask, wp_pure, wp_bind, wp_modify, wp_setManager]
    rfl
  have herr : s.errorCode = .snErrOk := (wp_of_done hrun).mp herr
  rw [registry_eq hl.rep, Lib.viewAt, hl.manager, hl.heap, herr]
  rfl

theorem Loaded.orderly (h : Loaded s) : Orderly [] s := by
  refine ⟨h.base, h.unlocked, fun i hi => ?_, ?_⟩
  · rw [h.manager] at hi
    exact absurd rfl hi
  · show Backed s.heap []
    rw [h.heap]
    exact backed_empty

theorem Orderly.registry_consistent (h : Orderly L s) : s.registry.Consistent := by
  rw [registry_eq h.base.rep]
  exact h.consistent

theorem Orderly.ready (h : Orderly L s) (env : Env) : Ready env s L s :=
  .start h.base h.unlocked h.describes

/-- One call, against one step of the registry. -/
theorem Orderly.step (h : Orderly L s) (hok : Respects l s) {r : Reply}
    (hstep : replyStep cfg l s = some (r, s')) :
    (∃ o, s.registry.step cfg l.1 o l.2 = (r, s'.registry)) ∧ ∃ L', Orderly L' s' := by
  have hallows : (s.viewAt L).Allows l.2 := by
    rw [← registry_eq h.base.rep]
    exact hok.1
  have hspec : wp (l.2.reply cfg) l.1 (Answered cfg l s L) (fun e _ => Halts l s e) s :=
    reply_spec l.2 (h.ready l.1) h.consistent hallows
  obtain ⟨o, L', hrep', heq⟩ := hspec.done (replyStep_eq_some.mp hstep)
  have hlib : libStep cfg l s = some s' := libStep_of_reply hstep
  -- the same list, by the specification of the call as a sequence of changes
  obtain ⟨L₁, hmeets⟩ := libStep_meets h.base hlib
  obtain ⟨hd, hb⟩ :=
    hmeets.changes.invariant (I := fun L s => Describes s.manager (L.map (item s.list)))
      (fun hb₁ hd₁ htrans => htrans.describes hb₁ h.base hok.2 hd₁) h.base h.describes
  obtain rfl : L' = L₁ := hrep'.unique hb.rep
  refine ⟨⟨o, ?_⟩, L', hb, hmeets.unlocked h.base h.unlocked, hd, ?_⟩
  · rw [registry_eq h.base.rep, registry_eq hrep', heq]
  · have hchange : Registry.Change (s.viewAt L) l.2 ((s.viewAt L).step cfg l.1 o l.2).2 :=
      Registry.step_change l.2
    rw [heq] at hchange
    exact hchange.consistent h.consistent hallows

/-- The registry follows the library. -/
theorem Orderly.explained (h : Orderly L s) (hok : Along (libStep cfg) Respects ls s)
    (hrun : history (replyStep cfg) ls s = some (os, s')) :
    (registrySpec cfg).Explains ls s.registry os s'.registry ∧ ∃ L', Orderly L' s' := by
  rw [← silent_replyStep] at hok
  have hstep : ∀ l s R r s', (R = s.registry ∧ ∃ L, Orderly L s) → Respects l s →
      replyStep cfg l s = some (r, s') → (registrySpec cfg).allows l R ∧
        ∃ o R', (registrySpec cfg).step l o R = (r, R') ∧ R' = s'.registry ∧ ∃ L, Orderly L s' := by
    rintro l s R r s' ⟨rfl, L, hL⟩ hok hstep
    obtain ⟨⟨o, ho⟩, hend⟩ := hL.step hok hstep
    exact ⟨hok.1, o, _, ho, rfl, hend⟩
  obtain ⟨R', hexplains, rfl, hend⟩ := explains_of_simulation hstep ⟨rfl, L, h⟩ hok hrun
  exact ⟨hexplains, hend⟩

/-- One call, whatever it replies. -/
theorem Orderly.next (h : Orderly L s) (hok : Respects l s) (hstep : libStep cfg l s = some s') :
    (∃ o, (s.registry.step cfg l.1 o l.2).2 = s'.registry) ∧ ∃ L', Orderly L' s' := by
  obtain ⟨⟨r, s₁⟩, hreply, rfl⟩ : ∃ p, replyStep cfg l s = some p ∧ p.2 = s' := by
    rw [← silent_replyStep, silent] at hstep
    exact Option.map_eq_some_iff.mp hstep
  obtain ⟨⟨o, ho⟩, hend⟩ := h.step hok hreply
  exact ⟨⟨o, congrArg Prod.snd ho⟩, hend⟩

theorem Orderly.run (h : Orderly L s) (hok : Along (libStep cfg) Respects ls s)
    (hrun : run (libStep cfg) ls s = some s') : ∃ L', Orderly L' s' := by
  refine run_invariant (P := Respects) (I := fun s => ∃ L, Orderly L s) ?_ ⟨L, h⟩ hok hrun
  rintro l s s' ⟨L, hL⟩ hok hstep
  exact (hL.next hok hstep).2

end Runs

/-! ## Histories -/

/-- **Every history is one of a registry.** The replies that a client which respects the
library gets in a run are those of a registry that began empty, with no call it forbids, and
the registry ends as the library does: with every entry for an allocated block of its own. -/
theorem history_explained {cfg : Config} {s₀ s : Lib} {ls : List (Env × Op)} {os : List Reply}
    (h₀ : Started s₀) (hok : Along (libStep cfg) Respects ls s₀)
    (hrun : history (replyStep cfg) ls s₀ = some (os, s)) :
    (registrySpec cfg).Explains ls .empty os s.registry ∧ s.registry.Consistent := by
  obtain ⟨hexplains, L, hL⟩ := (loaded_of_started h₀).orderly.explained hok hrun
  rw [started_registry h₀] at hexplains
  exact ⟨hexplains, hL.registry_consistent⟩

/-- A block, a client's write to it, a second block after the first was freed. -/
theorem history_explained_at :
    ∃ ls os s₀ s, ls = [(Env.plain 1 128 4096, .malloc 2), (Env.plain 1 0 0, .querySize 4096),
        (Env.plain 1 0 0, .free 4096), (Env.plain 1 128 4096, .calloc 2 3)] ∧
      os = [.addr 4096, .size 2, .none, .addr 4096] ∧ Started s₀ ∧
      history (replyStep ⟨true⟩) ls s₀ = some (os, s) ∧
      (registrySpec ⟨true⟩).Explains ls .empty os s.registry ∧ s.registry.Consistent := by
  have hsome : ((doinit (Env.plain 1 64 0) .blank).done?.bind fun s₀ =>
      (history (replyStep ⟨true⟩)
        [(Env.plain 1 128 4096, .malloc 2), (Env.plain 1 0 0, .querySize 4096),
          (Env.plain 1 0 0, .free 4096), (Env.plain 1 128 4096, .calloc 2 3)] s₀).map Prod.fst) =
      some [.addr 4096, .size 2, .none, .addr 4096] := by
    decide +kernel
  obtain ⟨s₀, h₀, hrest⟩ := Option.bind_eq_some_iff.mp hsome
  obtain ⟨⟨os, s⟩, hrun, rfl⟩ := Option.map_eq_some_iff.mp hrest
  have hstart : Started s₀ := started_of_done h₀
  refine ⟨_, _, s₀, s, rfl, rfl, hstart, hrun,
    history_explained hstart (Along.of_forall (fun l hl s => ?_) _) hrun⟩
  simp only [List.mem_cons, List.not_mem_nil, or_false] at hl
  rcases hl with rfl | rfl | rfl | rfl <;> exact ⟨trivial, id⟩

/-! ## The next call -/

theorem Orderly.ends {s : Lib} {L : List Addr} {op : Op} (hL : Orderly L s) (cfg : Config)
    (env : Env) (hallows : s.registry.Allows op) :
    wp (op.exec cfg) env (fun _ _ => True) (fun e _ => Halts (env, op) s e) s := by
  rw [registry_eq hL.base.rep] at hallows
  have hspec : wp (op.reply cfg) env (Answered cfg (env, op) s L)
      (fun e _ => Halts (env, op) s e) s :=
    reply_spec op (hL.ready env) hL.consistent hallows
  rw [exec_eq, forEffect, wp_bind]
  exact hspec.imp fun _ _ _ => trivial

/-- **How a call can fail to return.** After a run of a client that respects the library, an
allowed call returns or stops in one of the ways of `Halts`; it never reads or writes memory
that is not there, and none of its loops runs on. -/
theorem call_ends {cfg : Config} {s₀ s : Lib} {ls : List (Env × Op)} {env : Env} {op : Op}
    (h₀ : Started s₀) (hok : Along (libStep cfg) Respects ls s₀)
    (hrun : run (libStep cfg) ls s₀ = some s) (hallows : s.registry.Allows op) :
    (∃ s', libStep cfg (env, op) s = some s') ∨
      ∃ e s', op.exec cfg env s = .stop e s' ∧ Halts (env, op) s e := by
  obtain ⟨L, hL⟩ := (loaded_of_started h₀).orderly.run hok hrun
  have hends := hL.ends cfg env hallows
  cases hend : op.exec cfg env s with
  | done v s' =>
    refine Or.inl ⟨s', ?_⟩
    rw [libStep, hend]
    rfl
  | stop e s' => exact Or.inr ⟨e, s', rfl, hends.stop hend⟩

/-- With one block tracked, a second one crashes for want of a node, and the free of the first
returns. -/
theorem call_ends_at : ∃ s₀ s s' : Lib, Started s₀ ∧
    run (libStep ⟨true⟩) [(Env.plain 1 128 4096, .malloc 8)] s₀ = some s ∧
    s.registry.entries.length = 1 ∧
    (Op.malloc 8).exec ⟨true⟩ (Env.plain 2 0 8192) s = .stop (.crash .snErrCatastrophic) s' ∧
    Halts (Env.plain 2 0 8192, .malloc 8) s (.crash .snErrCatastrophic) ∧
    ∃ s'', libStep ⟨true⟩ (Env.plain 1 0 0, .free 4096) s = some s'' := by
  have hsome : ((doinit (Env.plain 1 64 0) .blank).done?.bind fun s₀ =>
      (run (libStep ⟨true⟩) [(Env.plain 1 128 4096, .malloc 8)] s₀).map fun s =>
        (s.registry.entries.length, s.list.entries, (libStep ⟨true⟩ (Env.plain 2 0 8192, .malloc 8)
          s).isSome, (libStep ⟨true⟩ (Env.plain 1 0 0, .free 4096) s).isSome)) =
      some (1, [128], false, true) := by
    decide +kernel
  obtain ⟨s₀, h₀, hrest⟩ := Option.bind_eq_some_iff.mp hsome
  obtain ⟨s, hrun, hval⟩ := Option.map_eq_some_iff.mp hrest
  obtain ⟨hlen, hval⟩ := Prod.mk.inj hval
  obtain ⟨hentries, hval⟩ := Prod.mk.inj hval
  obtain ⟨hcrashes, hreturns⟩ := Prod.mk.inj hval
  have hok : Along (libStep ⟨true⟩) Respects [(Env.plain 1 128 4096, .malloc 8)] s₀ :=
    ⟨⟨trivial, id⟩, fun _ _ => trivial⟩
  have hends : (∃ s', libStep ⟨true⟩ (Env.plain 2 0 8192, .malloc 8) s = some s') ∨
      ∃ e s', (Op.malloc 8).exec ⟨true⟩ (Env.plain 2 0 8192) s = .stop e s' ∧
        Halts (Env.plain 2 0 8192, .malloc 8) s e :=
    call_ends (started_of_done h₀) hok hrun trivial
  rcases hends with ⟨s', hs'⟩ | ⟨e, s', hstop, hhalts⟩
  · rw [hs'] at hcrashes
    cases hcrashes
  · have hcrash : e = .crash .snErrCatastrophic := by
      cases hhalts with
      | waits hempty _ => rw [hentries] at hempty; cases hempty
      | noNode => rfl
      | noMemory hop => cases hop
      | noSlot hop => cases hop
    subst hcrash
    exact ⟨s₀, s, s', started_of_done h₀, hrun, hlen, hstop, hhalts,
      Option.isSome_iff_exists.mp hreturns⟩

/-! ## A block that is left alone -/

/-- What a reply may say of the block of `t`, while it holds `bytes`. A function that asks
the cache first may give its default. -/
def SaysOf (t : TrackedBlock) (bytes : List UInt8) : Op → Reply → Prop
  | .querySize q, r => q = t.data → r = .size t.size
  | .queryTid q, r => q = t.data → r = .size t.tid ∨ r = .size 0
  | .getBlockId q, r => q = t.data → r = .blockId t.blockId ∨ r = .blockId 0
  | .isTrackedBlock q, r => q = t.data → r = .flag true
  | .calculateChecksum q, r => q = t.data →
      r = .size (checksumBytes (bytes.take t.size.toNat)) ∨ r = .size 0
  | _, _ => True

section Untouched

variable {cfg : Config} {env : Env} {R : Registry} {o : Oracle} {p : Addr} {t : TrackedBlock}

/-- The lookup that asks the cache first, for a tracked block. -/
theorem answer_or {dflt : Reply} {f : TrackedBlock → Reply × Registry} (hnull : p ≠ NULL)
    (hfind : R.find? p = some t) :
    R.answer o p dflt f = f t ∨ R.answer o p dflt f = (dflt, R) := by
  rw [Registry.answer, if_neg hnull, hfind]
  dsimp only
  split_ifs
  · exact Or.inl rfl
  · exact Or.inr rfl

theorem step_saysOf (hc : R.Consistent) (hfind : R.find? p = some t) (op : Op) :
    SaysOf t (R.heap.bytes p) op (R.step cfg env o op).1 := by
  obtain ⟨rfl, hlive, -⟩ := hc.of_find? hfind
  have hnull : t.data ≠ NULL := fun h0 => hc.wellFormed.null (h0 ▸ hlive)
  cases op with
  | querySize q =>
    rintro rfl
    rw [Registry.step, if_neg hnull, hfind]
  | isTrackedBlock q =>
    rintro rfl
    rw [Registry.step, if_neg hnull]
  | queryTid q =>
    rintro rfl
    exact (answer_or hnull hfind).imp (congrArg Prod.fst) (congrArg Prod.fst)
  | getBlockId q =>
    rintro rfl
    exact (answer_or hnull hfind).imp (congrArg Prod.fst) (congrArg Prod.fst)
  | calculateChecksum q =>
    rintro rfl
    rcases answer_or hnull hfind with heq | heq
    · by_cases hzero : t.size = 0
      · right
        rw [Registry.step, Registry.calculateChecksum, heq, if_pos hzero]
        rfl
      · left
        rw [Registry.step, Registry.calculateChecksum, heq, if_neg hzero]
    · right
      rw [Registry.step, Registry.calculateChecksum, heq]
  | _ => trivial

end Untouched

/-- What a run keeps of a block that none of its calls alters, and what its replies say of it. -/
theorem Orderly.untouched {cfg : Config} {s s' : Lib} {L : List Addr} {ls : List (Env × Op)}
    {os : List Reply} {p : Addr} {t : TrackedBlock} (hL : Orderly L s)
    (hok : Along (libStep cfg) Respects ls s)
    (hrun : history (replyStep cfg) ls s = some (os, s')) (hfind : s.registry.find? p = some t)
    (hno : ∀ l ∈ ls, ¬ l.2.Alters p) :
    s'.registry.find? p = some t ∧ s'.heap.bytes p = s.heap.bytes p ∧
      List.Forall₂ (fun l r => SaysOf t (s.heap.bytes p) l.2 r) ls os := by
  obtain ⟨hexplains, -⟩ := hL.explained hok hrun
  have hstep : ∀ l ∈ ls, ∀ (o : Oracle) (R : Registry), R.Allows l.2 →
      (R.Consistent ∧ R.find? p = some t ∧ R.heap.bytes p = s.heap.bytes p) →
      SaysOf t (s.heap.bytes p) l.2 (R.step cfg l.1 o l.2).1 ∧
        (R.step cfg l.1 o l.2).2.Consistent ∧ (R.step cfg l.1 o l.2).2.find? p = some t ∧
          (R.step cfg l.1 o l.2).2.heap.bytes p = s.heap.bytes p := by
    rintro l hl o R hallows ⟨hc, hf, hb⟩
    have hchange : Registry.Change R l.2 (R.step cfg l.1 o l.2).2 := Registry.step_change l.2
    obtain ⟨hf', hb'⟩ := hchange.untouched hc (hno l hl) hf
    refine ⟨?_, hchange.consistent hc hallows, hf', hb'.trans hb⟩
    rw [← hb]
    exact step_saysOf hc hf l.2
  obtain ⟨hreplies, -, hfind', hbytes⟩ := hexplains.rule hstep ⟨hL.registry_consistent, hfind, rfl⟩
  exact ⟨hfind', hbytes, hreplies⟩

/-- **A block that no call alters** keeps its entry and its bytes through every run of a
client that respects the library, and every reply about it says the same. -/
theorem untouched_block {cfg : Config} {s₀ s s' : Lib} {pre ls : List (Env × Op)} {os : List Reply}
    {p : Addr} {t : TrackedBlock} (h₀ : Started s₀) (hokPre : Along (libStep cfg) Respects pre s₀)
    (hpre : run (libStep cfg) pre s₀ = some s) (hok : Along (libStep cfg) Respects ls s)
    (hrun : history (replyStep cfg) ls s = some (os, s')) (hfind : s.registry.find? p = some t)
    (hno : ∀ l ∈ ls, ¬ l.2.Alters p) :
    s'.registry.find? p = some t ∧ s'.heap.bytes p = s.heap.bytes p ∧
      List.Forall₂ (fun l r => SaysOf t (s.heap.bytes p) l.2 r) ls os := by
  obtain ⟨L, hL⟩ := (loaded_of_started h₀).orderly.run hokPre hpre
  exact hL.untouched hok hrun hfind hno

/-- A block of two bytes, queried and checksummed while another is allocated and freed. -/
theorem untouched_block_at :
    ∃ ls os s₀ s s', ls = [(Env.plain 1 192 8192, .malloc 3), (Env.plain 1 0 0, .querySize 4096),
        (Env.plain 1 0 0, .free 8192), (Env.plain 1 0 0, .calculateChecksum 4096)] ∧
      os = [.addr 8192, .size 2, .none, .size 1] ∧ Started s₀ ∧
      run (libStep ⟨true⟩) [(Env.plain 1 128 4096, .mallocPreInitialized 2 7)] s₀ = some s ∧
      history (replyStep ⟨true⟩) ls s = some (os, s') ∧
      s'.registry.find? 4096 = some ⟨4096, 2, 1, 0⟩ ∧
      s'.heap.bytes 4096 = s.heap.bytes 4096 ∧
      List.Forall₂ (fun l r => SaysOf ⟨4096, 2, 1, 0⟩ (s.heap.bytes 4096) l.2 r) ls os := by
  have hsome : ((doinit (Env.plain 1 64 0) .blank).done?.bind fun s₀ =>
      (run (libStep ⟨true⟩) [(Env.plain 1 128 4096, .mallocPreInitialized 2 7)] s₀).bind fun s =>
        (history (replyStep ⟨true⟩)
          [(Env.plain 1 192 8192, .malloc 3), (Env.plain 1 0 0, .querySize 4096),
            (Env.plain 1 0 0, .free 8192), (Env.plain 1 0 0, .calculateChecksum 4096)] s).map
          fun q => (s.registry.find? 4096, q.1)) =
      some (some ⟨4096, 2, 1, 0⟩, [.addr 8192, .size 2, .none, .size 1]) := by
    decide +kernel
  obtain ⟨s₀, h₀, hrest⟩ := Option.bind_eq_some_iff.mp hsome
  obtain ⟨s, hpre, hrest⟩ := Option.bind_eq_some_iff.mp hrest
  obtain ⟨⟨os, s'⟩, hrun, hval⟩ := Option.map_eq_some_iff.mp hrest
  obtain ⟨hfind, rfl⟩ := Prod.mk.inj hval
  refine ⟨_, _, s₀, s, s', rfl, rfl, started_of_done h₀, hpre, hrun,
    untouched_block (started_of_done h₀) ?_ hpre ?_ hrun hfind ?_⟩
  · exact ⟨⟨trivial, id⟩, fun _ _ => trivial⟩
  · refine Along.of_forall (fun l hl s => ?_) _
    simp only [List.mem_cons, List.not_mem_nil, or_false] at hl
    rcases hl with rfl | rfl | rfl | rfl <;> exact ⟨trivial, id⟩
  · intro l hl
    simp only [List.mem_cons, List.not_mem_nil, or_false] at hl
    rcases hl with rfl | rfl | rfl | rfl <;> simp [Op.Alters]

end LibSafetynet
