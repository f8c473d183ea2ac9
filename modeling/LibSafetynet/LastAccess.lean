import LibSafetynet.CacheView

/-!
# The node that was accessed last (`backend_api/src/sn_crash.c`)

Every lookup leaves the node it found in `lastAccess`, which the crash report reads.
No removal resets it, so it dangles once `sn_free` removes the entry that it names:
always when the lookup of `sn_free` itself went through the list, and after a cache hit
when the last lookup found the same entry. `access_live_iff_not_dropped` says that
nothing else makes it dangle.
-/

namespace LibSafetynet

open Logic Prog PlatMutex ListState AllocManager

/-! ## The crash report -/

/-- `print_node`: the node it shows, or nothing for a null pointer. -/
def printNode (node : Addr) : CProg ListState (Option LinkedListEntry) := do
  if node = NULL then return none
  return some (← deref node)

/-- What `__sn__pri__crash__` shows of the list. Two errors end the process before that. -/
def snPriCrash (err : SnErrorCodes) : CProg ListState (Option LinkedListEntry) := do
  if err = .snErrCatastrophic then return none
  if err = .snErrSysFail then return none
  printNode (← getList).lastAccess

/-- `lastAccess` is null or an entry, and a crash report can be written. -/
structure AccessLive (s : Lib) : Prop where
  linked : s.list.list.lastAccess = NULL ∨ s.list.list.lastAccess ∈ s.list.entries
  report : ∀ env err, ∃ shown, snPriCrash err env s.list = .done shown s.list

/-- The call frees a pointer `p` and with it the entry that `lastAccess` is left at: its
lookup goes through the list, or the first entry for `p` is the last one accessed. -/
def DropsAccess (l : Env × Op) (s : Lib) : Prop :=
  ∃ p, Frees l s p ∧ (¬ s.Hits p ∨ findPtr s.list s.list.entries p ≠ NULL ∧
    s.list.list.lastAccess = findPtr s.list s.list.entries p)

instance (l : Env × Op) (s : Lib) : Decidable (DropsAccess l s) :=
  decidable_of_iff (∃ p ∈ released l s, ¬ s.Hits p ∨ findPtr s.list s.list.entries p ≠ NULL ∧
      s.list.list.lastAccess = findPtr s.list s.list.entries p)
    (exists_congr fun _ => and_congr_left' frees_iff.symm)

/-! ## Code that removes no entry -/

/-- The list is well formed, and `lastAccess` is null or an entry. -/
def AccessSafe (l : ListState) : Prop :=
  ∃ L, l.Rep L ∧ (l.list.lastAccess = NULL ∨ l.list.lastAccess ∈ L)

section ListCode

variable {l l' : ListState} {L : List Addr} {env : Env}

theorem accessSafe_iff (h : l.Rep L) :
    AccessSafe l ↔ l.list.lastAccess = NULL ∨ l.list.lastAccess ∈ L := by
  constructor
  · rintro ⟨L', hrep, hacc⟩
    rwa [hrep.unique h] at hacc
  · exact fun hacc => ⟨L, h, hacc⟩

theorem AccessSafe.of_links (h : AccessSafe l) (hl : SameLinks l l')
    (hacc : l'.list.lastAccess = l.list.lastAccess) : AccessSafe l' := by
  obtain ⟨L, hrep, hin⟩ := h
  exact ⟨L, hl.rep hrep, by rwa [hacc]⟩

/-- The state after a lookup. -/
theorem accessSafe_access (h : l.Rep L) (hacc : l.list.lastAccess = NULL ∨ l.list.lastAccess ∈ L)
    {a : Addr} (ha : a ≠ NULL → a ∈ L) (m : Option PlatMutex) :
    AccessSafe { l.access a with mutex := m } := by
  have hsame := sameList_access fun hne => h.live_of_mem (ha hne)
  refine ⟨L, ((hsame.trans (SameList.mutex _ m)).rep h), ?_⟩
  by_cases hnull : a = NULL
  · simpa [ListState.access, hnull] using hacc
  · exact Or.inr (by simpa [ListState.access, hnull] using ha hnull)

theorem keepsSafe_store {a : Addr} {f : LinkedListEntry → LinkedListEntry}
    (hf : ∀ e, (f e).next = e.next ∧ (f e).previous = e.previous ∧ (f e).isHead = e.isHead ∧
      (f e).mutex = e.mutex) : Keeps AccessSafe (store a f) := by
  refine Keeps.iff_wp.mpr fun env l hl => ?_
  rw [store, wp_bind]
  exact wp_deref (fun hlive => hl.of_links (SameLinks.updNode hlive f hf) rfl) fun _ => hl

theorem safe_store {a : Addr} {f : LinkedListEntry → LinkedListEntry}
    (hf : ∀ e, (f e).next = e.next ∧ (f e).previous = e.previous ∧ (f e).isHead = e.isHead ∧
      (f e).mutex = e.mutex) : Preserves AccessSafe (store a f) := .of_keeps (keepsSafe_store hf)

theorem safe_getByPtr (key : Addr) : Preserves AccessSafe (linkedListGetByPtr key) := by
  rintro env l ⟨L, hrep, hacc⟩
  refine wp_linkedListGetByPtr hrep (fun _ => ⟨L, hrep, hacc⟩) (fun _ _ => trivial) fun _ _ => ?_
  exact accessSafe_access hrep hacc (fun hne => (findPtr_mem hne).1) _

theorem safe_getById (id : UInt16) : Preserves AccessSafe (linkedListGetById id) := by
  rintro env l ⟨L, hrep, hacc⟩
  refine wp_linkedListGetById hrep (fun _ => trivial) fun _ => ?_
  exact accessSafe_access hrep hacc (fun hne => (findId_mem hne).1) _

theorem safe_hasPtr (key : Addr) : Preserves AccessSafe (linkedListHasPtr key) := by
  rintro env l ⟨L, hrep, hacc⟩
  refine wp_linkedListHasPtr hrep (fun _ => ⟨L, hrep, hacc⟩) (fun _ _ => trivial) fun _ _ => ?_
  refine ⟨L, ?_, ?_⟩
  · exact (SameList.lastAccess _ _).rep ((SameList.mutex l (release l.mutex)).rep hrep)
  · dsimp only
    split_ifs with hnull
    · exact hacc
    · exact Or.inr (findPtr_mem hnull).1

/-- A new entry changes nothing about the last one accessed. -/
theorem accessSafe_pushed {a data : Addr} {size tid : UInt64}
    (hpush : Pushed l l' L a data size tid) (h : l.Rep L) (hacc : AccessSafe l) :
    AccessSafe l' := by
  refine ⟨_, hpush.rep, ?_⟩
  rw [hpush.lastAccess]
  exact ((accessSafe_iff h).mp hacc).imp_right (List.mem_append_left _)

theorem safe_push (data : Addr) (size tid : UInt64) :
    Preserves AccessSafe (linkedListPush data size tid) := by
  rintro env l ⟨L, hrep, hacc⟩
  exact wp_linkedListPush hrep (fun _ => trivial) (fun _ _ => trivial) fun _ _ l' hpush =>
    accessSafe_pushed hpush hrep ⟨L, hrep, hacc⟩

end ListCode

/-- Library code after which `lastAccess` still does not dangle. -/
abbrev KeepsAccess {α : Type} (m : CProg Lib α) : Prop := Preserves (fun s => AccessSafe s.list) m

section LibraryCode

theorem access_onList {α : Type} {m : CProg ListState α} (hm : Preserves AccessSafe m) :
    KeepsAccess (onList m) :=
  .zoom hm (fun _ hs => hs) fun _ _ _ hl => hl

theorem access_setManager (f : AllocManager → AllocManager) : KeepsAccess (setManager f) :=
  .of_keeps (.modify fun _ hs => hs)

theorem keepsAccess_code : CodeFrame @KeepsAccess where
  pure a := .of_keeps (.pure a)
  ask := .of_keeps .ask
  bind := .bind
  ite := .ite
  lockAlloc := .of_keeps (.zoom_other fun _ _ hs => hs)
  unlockAlloc := .of_keeps (.zoom_other fun _ _ hs => hs)
  getManager := .of_keeps (.bind .get fun _ => .pure _)

/-- The primitives keep `lastAccess` null or linked. -/
theorem keepsAccess : OpFrame @KeepsAccess where
  toCodeFrame := keepsAccess_code
  setUsage f := access_setManager _
  setError err := .of_keeps (.modify fun _ hs => hs)
  fopenRead n path :=
    .of_keeps (.bind .ask fun _ => .ite (.bind .get fun _ => .pure _) (.pure _))
  setFile path content := .of_keeps (.modify fun _ hs => hs)
  onHeap m := .of_keeps (.zoom_other fun _ _ hs => hs)
  deref a := access_onList (.of_keeps (keeps_deref a))
  entryGet a dflt get := access_onList (.of_keeps keeps_entryGet)
  entrySet a f hf := by
    refine access_onList (.of_keeps (keeps_linkedListEntrySet
      (fun l m hl => hl.of_links (SameList.mutex l m).sameLinks rfl) (keepsSafe_store fun e => ?_)))
    obtain ⟨data, size, blockId, hfe⟩ := hf e
    rw [hfe]
    exact ⟨rfl, rfl, rfl, rfl⟩
  tryCacheHit := keepsAccess_code.memmanTryCacheHit fun _ =>
    access_onList (safe_store fun _ => ⟨rfl, rfl, rfl, rfl⟩)
  tryCacheHitById := keepsAccess_code.memmanTryCacheHitById fun self id =>
    access_onList (.of_keeps (keeps_memmanScanIds self id slots))
  getByPtr key := access_onList (safe_getByPtr key)
  getById id := access_onList (safe_getById id)
  hasPtr key := access_onList (safe_hasPtr key)
  push data size tid := access_onList (safe_push data size tid)
  scan f hworker arg := by
    refine access_onList ?_
    rintro env l ⟨L, hrep, hacc⟩
    refine wp_linkedListForEach_read hrep hworker (fun _ => trivial) fun _ => ?_
    exact ⟨L, (SameList.mutex _ _).rep hrep, hacc⟩

theorem access_memmanWork : KeepsAccess memmanWork := by
  rintro env s ⟨L, hrep, hacc⟩
  refine wp_memmanWork hrep (fun _ _ => trivial) (fun _ _ => trivial) fun _ _ => ?_
  exact ⟨L, (sameList_worked hrep).rep hrep, hacc⟩

theorem access_memmanCacheClear : KeepsAccess memmanCacheClear :=
  keepsAccess_code.memmanCacheClear
    (fun _ _ => access_onList (safe_store fun _ => ⟨rfl, rfl, rfl, rfl⟩))
    fun _ => access_setManager _

theorem access_memmanTryCachePut (entry : Addr) : KeepsAccess (memmanTryCachePut entry) := by
  refine .bind keepsAccess.getManager fun self => .ite (.of_keeps (.pure _)) ?_
  refine .ite (.of_keeps (.pure _)) (.bind keepsAccess.lockAlloc fun _ => ?_)
  cases self.freeSlot with
  | none => exact .of_keeps (.stop _)
  | some i =>
    refine .bind (keepsAccess.deref entry) fun e => .bind (access_setManager _) fun _ => ?_
    refine .bind (access_onList (safe_store fun _ => ⟨rfl, rfl, rfl, rfl⟩)) fun _ => ?_
    exact .bind keepsAccess.unlockAlloc fun _ => .of_keeps (.pure _)

theorem access_snRequestToFastCache (ptr : Addr) : KeepsAccess (snRequestToFastCache ptr) := by
  refine .ite (keepsAccess.snError _ _) (.bind (keepsAccess.getByPtr ptr) fun entry => ?_)
  exact .ite (keepsAccess.snError _ _) (access_memmanTryCachePut entry)

/-- The operations that remove no entry keep `lastAccess` null or linked. -/
theorem keepsAccess_exec : ExecFrame @KeepsAccess where
  toOpFrame := keepsAccess
  work := access_memmanWork
  requestToFastCache := access_snRequestToFastCache
  cacheClear := access_memmanCacheClear
  getLastError := .of_keeps (.bind .get fun _ => .pure _)
  setField f hf := by
    refine .of_keeps (.modify fun s hs => ?_)
    rw [(hf s).1]
    exact hs
  setSetting f _ := access_setManager f

end LibraryCode

/-! ## Code that removes an entry -/

section Removal

variable {cfg : Config} {env : Env} {l : Env × Op} {s s' : Lib} {L L' : List Addr} {p e : Addr}

/-- **Where `sn_free` leaves `lastAccess`**: a list lookup left it at the entry that is
then removed, a hit left it where it was. -/
theorem Released.access_iff (h : Released cfg s L p e s' L') (hb : Base s L)
    (hacc : AccessSafe s.list) :
    AccessSafe s'.list ↔ ¬ (¬ s.Hits p ∨ findPtr s.list L p ≠ NULL ∧
      s.list.list.lastAccess = findPtr s.list L p) := by
  rw [accessSafe_iff (h.list.rep hb.rep)]
  rw [accessSafe_iff hb.rep] at hacc
  by_cases hhit : s.Hits p
  · rw [h.hit hhit]
    generalize s.list.list.lastAccess = x at hacc ⊢
    cases h.list with
    | found hL hfind _ _ =>
      have hnd := hb.rep.links.tail_nodup
      have hne : findPtr s.list L p ≠ NULL := by
        rw [hfind]
        exact hb.rep.ne_null (by simp [hL])
      rw [hL, List.nodup_middle] at hnd
      rw [hL] at hacc hfind hne ⊢
      rw [hfind] at hne ⊢
      constructor
      · rintro hin (hno | ⟨-, rfl⟩)
        · exact hno hhit
        · exact hin.elim hne (List.nodup_cons.mp hnd).1
      · intro hsafe
        refine hacc.imp_right fun hin => ?_
        have hxa : x ≠ _ := fun heq => hsafe (Or.inr ⟨hne, heq⟩)
        simpa [hxa] using hin
    | none hnone _ =>
      refine iff_of_true hacc ?_
      rintro (hno | ⟨hne, -⟩)
      · exact hno hhit
      · exact hne hnone
  · -- the lookup went through the list
    refine iff_of_false ?_ fun hsafe => hsafe (Or.inl hhit)
    have hfind : findPtr s.list L p = e := by
      cases h.lookup with
      | cached i huse hslot _ => exact absurd (hits_of_keySlot huse hslot) hhit
      | listed _ hfind => exact hfind
    rw [h.miss hhit, ← hfind]
    rintro (hnull | hin)
    · exact hb.rep.ne_null h.mem (hfind.symm.trans hnull)
    · exact h.list.findPtr_not_mem hb.rep hin

theorem access_snFree (hb : Base s L) (hacc : AccessSafe s.list) :
    wlp (snFree cfg p) env
      (fun _ s' => AccessSafe s'.list ↔ ¬ DropsAccess (env, .free p) s) s := by
  have hfound : DropsAccess (env, .free p) s ↔ p ≠ NULL ∧
      (s.Hits p ∨ findPtr s.list L p ≠ NULL) ∧ (¬ s.Hits p ∨ findPtr s.list L p ≠ NULL ∧
        s.list.list.lastAccess = findPtr s.list L p) := by
    rw [← hb.rep.entries_eq]
    constructor
    · rintro ⟨_, hf, hdrop⟩
      cases hf with
      | free hop hne hin =>
        cases hop
        exact ⟨hne, hin, hdrop⟩
      | mount hop _ _ => cases hop
    · rintro ⟨hne, hin, hdrop⟩
      exact ⟨p, .free rfl hne hin, hdrop⟩
  rw [hfound]
  refine wp_snFree hb (fun _ _ => trivial) (fun _ _ => trivial)
    (fun hnull => iff_of_true hacc fun h => h.1 hnull) (fun _ hmiss hnone => ?_)
    fun e s' L' h => (h.access_iff hb hacc).trans ?_
  · refine iff_of_true (hacc.of_links (SameList.mutex _ _).sameLinks rfl) ?_
    rintro ⟨-, hin, -⟩
    exact hin.elim hmiss fun hne => hne hnone
  · refine not_congr ((and_iff_right h.ptr_ne).trans (and_iff_right ?_)).symm
    cases h.lookup with
    | cached i huse hslot _ => exact Or.inl (hits_of_keySlot huse hslot)
    | listed _ hfind => exact Or.inr (hfind ▸ hb.rep.ne_null h.mem)

theorem access_snMountFileToRam {file : Option FileName} (hb : Base s L)
    (hacc : AccessSafe s.list) :
    wlp (snMountFileToRam cfg file) env
      (fun _ s' => AccessSafe s'.list ↔ ¬ DropsAccess (env, .mountFileToRam file) s) s := by
  -- nothing is dropped unless the file is opened and falls short
  have hkept : ∀ s' : Lib, AccessSafe s'.list → (∀ content size, Opens env s file content size →
      ¬ env.transferred < size.toNat) →
      (AccessSafe s'.list ↔ ¬ DropsAccess (env, .mountFileToRam file) s) := by
    refine fun s' hs' hall => iff_of_true hs' ?_
    rintro ⟨p, hf, -⟩
    cases hf with
    | free hop _ _ => cases hop
    | mount hop hshort _ =>
      cases hop
      exact hall _ _ hshort.opens hshort.short
  refine wp_snMountFileToRam hb (fun _ _ => trivial) (fun err herr => hkept _ hacc ?_)
    (fun _ _ _ _ _ => trivial) (fun _ _ _ _ _ _ => trivial)
    (fun content size s₁ bytes hopens _ h hall => hkept _ ?_ ?_)
    fun content size s₁ bytes hopens _ h hless => ?_
  · intro content size hopens
    rw [hopens.refusal] at herr
    cases herr
  · exact accessSafe_pushed h.granted.pushed hb.rep hacc
  · intro content' size' hopens'
    rw [hopens.size_unique hopens'] at hall
    exact Nat.not_lt.mpr hall
  · have hb₁ : Base s₁ (L ++ [env.node]) := h.granted.base hb
    have hacc₁ : AccessSafe s₁.list := accessSafe_pushed h.granted.pushed hb.rep hacc
    have hne : env.node ≠ NULL := h.admitsNode.1
    have hblock : env.block ≠ NULL := h.granted.admits.ne_null
    rw [wp_bind]
    refine wp_snFree hb₁ (fun _ _ => trivial) (fun _ _ => trivial)
      (fun hnull => absurd hnull hblock) (fun _ _ hnone => ?_) fun e s₂ L' h₂ => ?_
    · refine absurd hnone ?_
      by_cases hold : findPtr s.list L env.block = NULL
      · rw [h.granted.pushed.findPtr_new hb.rep hold]
        exact hne
      · rw [h.granted.pushed.findPtr hold]
        exact hold
    -- the last error leaves the list alone
    have hlist : wlp (snError .snErrFileIo NULL) env (fun _ s' => s'.list = s₂.list) s₂ :=
      wlp_snError_exact rfl
    refine hlist.imp fun _ s' hs' => ?_
    rw [hs', h₂.access_iff hb₁ hacc₁, h.hits_iff]
    refine not_congr ?_
    obtain ⟨path, rfl, hfound⟩ := hopens.found
    have hshort : ReadsShort env s path content :=
      ⟨hopens.exists_ok, hopens.open_ok, hfound, hopens.size_eq ▸ hless⟩
    have hdrop : DropsAccess (env, .mountFileToRam (some path)) s ↔
        ¬ s.Hits env.block ∨ findPtr s.list L env.block ≠ NULL ∧
          s.list.list.lastAccess = findPtr s.list L env.block := by
      rw [← hb.rep.entries_eq]
      constructor
      · rintro ⟨_, hf, hdrop⟩
        cases hf with
        | free hop _ _ => cases hop
        | mount _ _ hp => rwa [hp] at hdrop
      · exact fun hdrop => ⟨_, .mount rfl hshort rfl, hdrop⟩
    rw [hdrop, h.granted.pushed.lastAccess]
    refine or_congr Iff.rfl ?_
    by_cases hold : findPtr s.list L env.block = NULL
    · -- the entry that is removed is the new one, which nobody has accessed
      rw [h.granted.pushed.findPtr_new hb.rep hold]
      refine iff_of_false (fun hn => ?_) fun ho => ho.1 hold
      have hin := (accessSafe_iff hb.rep).mp hacc
      rw [hn.2] at hin
      exact hin.elim hne fun hmem => h.granted.pushed.fresh (List.mem_cons_of_mem _ hmem)
    · rw [h.granted.pushed.findPtr hold]

/-- Only two operations can drop it. -/
theorem not_dropsAccess {op : Op} (hfree : ∀ p, op ≠ .free p)
    (hmount : ∀ file, op ≠ .mountFileToRam file) (s : Lib) : ¬ DropsAccess (env, op) s := by
  rintro ⟨p, hf, -⟩
  cases hf with
  | free hop _ _ => exact hfree _ hop
  | mount hop _ _ => exact hmount _ hop

/-- One completed operation, from a state where `lastAccess` does not dangle. -/
theorem libStep_access (hb : Base s L) (hacc : AccessSafe s.list)
    (h : libStep cfg l s = some s') : AccessSafe s'.list ↔ ¬ DropsAccess l s := by
  obtain ⟨env, op⟩ := l
  obtain ⟨_, hdone⟩ := Outcome.done?_eq_some.mp h
  have hother : (∀ p, op ≠ .free p) → (∀ file, op ≠ .mountFileToRam file) →
      (AccessSafe s'.list ↔ ¬ DropsAccess (env, op) s) := by
    intro hfree hmount
    have hexec : KeepsAccess (op.exec cfg) :=
      keepsAccess_exec.exec op (fun p h => absurd h (hfree p)) fun file h => absurd h (hmount file)
    exact iff_of_true ((hexec env s hacc).done hdone) (not_dropsAccess hfree hmount s)
  cases op with
  | free p => exact (access_snFree hb hacc).done hdone
  | mountFileToRam file => exact (wlp_forEffect (access_snMountFileToRam hb hacc)).done hdone
  | _ => exact hother (fun _ h => nomatch h) fun _ h => nomatch h

theorem AccessSafe.live (hacc : AccessSafe s.list) (hb : Base s L) : AccessLive s := by
  have hin := (accessSafe_iff hb.rep).mp hacc
  constructor
  · rwa [hb.rep.entries_eq]
  · intro env err
    have hprint : wp (snPriCrash err) env (fun _ s' => s' = s.list) (fun _ _ => False) s.list := by
      rw [snPriCrash, wp_ite]
      refine ⟨fun _ => rfl, fun _ => ?_⟩
      rw [wp_ite]
      refine ⟨fun _ => rfl, fun _ => ?_⟩
      rw [wp_bind, wp_getList, printNode, wp_ite]
      refine ⟨fun _ => rfl, fun hne => ?_⟩
      rw [wp_bind]
      exact wp_deref_live (hb.rep.live_of_mem (hin.resolve_left hne)) rfl
    obtain ⟨shown, s', hdone, rfl⟩ := hprint.exists_done
    exact ⟨shown, hdone⟩

end Removal

theorem lastAccess_of_started {s : Lib} (h : Started s) : s.list.list.lastAccess = NULL := by
  obtain ⟨env, hrun⟩ := h
  have hspec : wlp doinit env (fun _ s => s.list.list.lastAccess = NULL) .blank := by
    rw [wlp, doinit, wp_bind, wp_onList]
    refine wp_linkedListNew (fun _ => trivial) fun _ l hl => ?_
    rw [wp_bind, platMutexNew, wp_bind, wp_ask, wp_pure, wp_bind, wp_modify, wp_setManager]
    exact hl.lastAccess
  exact hspec.done hrun

/-- **When `lastAccess` dangles.** In every state of a run `lastAccess` is null or an
entry, and a crash report can be written, exactly if no call of the run removes the
entry at which `lastAccess` is left. -/
theorem access_live_iff_not_dropped {cfg : Config} {s₀ s : Lib} {ls : List (Env × Op)}
    (h₀ : Started s₀) (hrun : run (libStep cfg) ls s₀ = some s) :
    (∀ ls' s', ls' <+: ls → run (libStep cfg) ls' s₀ = some s' → AccessLive s') ↔
      Along (libStep cfg) (fun l s => ¬ DropsAccess l s) ls s₀ := by
  have hl := loaded_of_started h₀
  refine prefixes_iff_along (J := fun s => (∃ L, Base s L) ∧ AccessSafe s.list) (fun s h => ?_)
    (fun l s s' h hkept hs => ?_) (fun l s s' h hdrop hs hlive => ?_) ⟨⟨[], hl.base⟩, ?_⟩ hrun
  · obtain ⟨⟨L, hb⟩, hacc⟩ := h
    exact hacc.live hb
  · obtain ⟨⟨L, hb⟩, hacc⟩ := h
    exact ⟨libStep_base hb hs, (libStep_access hb hacc hs).mpr hkept⟩
  · obtain ⟨⟨L, hb⟩, hacc⟩ := h
    obtain ⟨L', hb'⟩ := libStep_base hb hs
    refine (libStep_access hb hacc hs).mp ((accessSafe_iff hb'.rep).mpr ?_) hdrop
    rw [← hb'.rep.entries_eq]
    exact hlive.linked
  · exact (accessSafe_iff hl.rep).mpr (Or.inl (lastAccess_of_started h₀))

/-- A block in the cache is freed after the other one was accessed. -/
theorem access_live_iff_not_dropped_at :
    ∃ ls s₀ s, ls = [(Env.plain 1 128 4096, .malloc 8), (Env.plain 1 0 0, .requestToFastCache 4096),
        (Env.plain 1 0 0, .queryThreadMemoryUsage 1), (Env.plain 1 192 8192, .malloc 8),
        (Env.plain 1 0 0, .requestToFastCache 8192), (Env.plain 1 0 0, .free 4096)] ∧
      Started s₀ ∧ run (libStep ⟨false⟩) ls s₀ = some s ∧ s.list.list.lastAccess = 192 ∧
      AccessLive s := by
  generalize hls : [(Env.plain 1 128 4096, Op.malloc 8),
    (Env.plain 1 0 0, .requestToFastCache 4096), (Env.plain 1 0 0, .queryThreadMemoryUsage 1),
    (Env.plain 1 192 8192, .malloc 8), (Env.plain 1 0 0, .requestToFastCache 8192),
    (Env.plain 1 0 0, .free 4096)] = ls
  have hsome : ((doinit (Env.plain 1 64 0) .blank).done?.bind fun s₀ =>
      (run (libStep ⟨false⟩) ls s₀).map fun s => (s.list.list.lastAccess,
        decide (Along (libStep ⟨false⟩) (fun l s => ¬ DropsAccess l s) ls s₀))) =
          some (192, true) := by
    rw [← hls]
    decide +kernel
  obtain ⟨s₀, h₀, hsome⟩ := Option.bind_eq_some_iff.mp hsome
  obtain ⟨s, hs, hval⟩ := Option.map_eq_some_iff.mp hsome
  obtain ⟨haccess, hok⟩ := Prod.mk.inj hval
  exact ⟨ls, s₀, s, rfl, started_of_done h₀, hs, haccess,
    (access_live_iff_not_dropped (started_of_done h₀) hs).mpr (of_decide_eq_true hok) ls s
      List.prefix_rfl hs⟩

/-- A block that is not in the cache is freed: `lastAccess` stays at its node, and the
crash report reads freed memory. -/
theorem freed_entry_accessed :
    ((doinit (Env.plain 1 64 0) .blank).done?.bind (run (libStep ⟨false⟩)
      [(Env.plain 1 128 4096, .malloc 8), (Env.plain 1 0 0, .free 4096)])).map (fun s =>
          (s.list.list.lastAccess, s.list.entries,
            (snPriCrash .snErrBadAlloc (Env.plain 1 0 0) s.list).map (fun _ => ()) fun _ => ()))
      = some (128, [], .stop .undefined ()) := by
  decide +kernel

end LibSafetynet
