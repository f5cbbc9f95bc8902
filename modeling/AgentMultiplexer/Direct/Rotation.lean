import AgentMultiplexer.Direct.GrantEdits

set_option autoImplicit false

/-! # Refresh tokens are used once

Every token a grant holds or has held was drawn for its client, and the current one is not among the
used ones. A token that was answered with its successor is among the used tokens of its grant in
memory and in every content the disk may have, for as long as the grant is there: it is never current
again, and whoever presents it has the grant revoked. -/

namespace AgentMultiplexer.Direct

open AList Authority GoMap List Transition Outcome Prod

variable {hash : TokenHash} {life : Lifetimes} {spentKey : String → String}

/-- The token a client presented and got a successor for. -/
def Outcome.presented : Outcome → Option String
  | .refreshed t _ _ => some t
  | _ => none

/-- The refresh token drawn for an answer, handed out or not. -/
def Outcome.successor : Outcome → Option String
  | .enrolled _ r => some r
  | .refreshed _ _ n => some n
  | .uncertain _ _ n => some n
  | _ => none

/-- The refresh token an answer hands out. -/
def Outcome.handed : Outcome → Option String
  | .enrolled _ r => some r
  | .refreshed _ _ n => some n
  | _ => none

structure Rotation (hash : TokenHash) (s : GrantState) (st : Registry) : Prop where
  known : ∀ c ∈ st.grants, c ∈ s.created
  current : ∀ c g, st.grants.lookup c = some g → g.refreshHash ≠ "" →
    ∃ t, (t, c) ∈ s.drawn ∧ g.refreshHash = hash.hash t
  used : ∀ c g x, st.grants.lookup c = some g → x ∈ g.usedRefresh →
    ∃ t, (t, c) ∈ s.drawn ∧ x = hash.hash t
  fresh : ∀ c g, st.grants.lookup c = some g → g.refreshHash ∉ g.usedRefresh
  kept : ∀ t c n g, .refreshed t c n ∈ s.log → st.grants.lookup c = some g →
    hash.hash t ∈ g.usedRefresh

section Content

variable {s s' : GrantState} {st st' : Registry}

/-- **An edit keeps the tokens in order**, as long as what was answered in the step is used in the
    content. -/
theorem Rotation.edit (h : Rotation hash s st) (hedit : Edit hash s s' st st')
    (hgrows : HistoryGrows s s') (hlog : ∀ t c n, .refreshed t c n ∈ s'.log →
      (.refreshed t c n ∈ s.log ∧ c ∈ s.created) ∨
        ∀ g, st'.grants.lookup c = some g → hash.hash t ∈ g.usedRefresh) :
    Rotation hash s' st' := by
  have hdrawn : s.drawn ⊆ s'.drawn := hgrows.drawn_subset
  have hold : ∀ {c x}, (∃ t, (t, c) ∈ s.drawn ∧ x = hash.hash t) →
      ∃ t, (t, c) ∈ s'.drawn ∧ x = hash.hash t := fun ⟨t, ht, hx⟩ => ⟨t, hdrawn ht, hx⟩
  constructor
  · exact hedit.known hgrows h.known
  · intro c g' hg' hne
    obtain ⟨o, hg, hcell⟩ := hedit.cell hg'
    cases hcell with
    | same => exact hold (h.current c g' hg hne)
    | actions _ hhash =>
      rw [hhash] at hne ⊢
      exact hold (h.current c _ hg hne)
    | revoked _ hhash => exact absurd hhash hne
    | @rotated _ _ next _ _ hhash _ _ hmem => exact ⟨next, hmem, hhash⟩
    | @created _ token _ _ hhash _ hmem =>
      exact ⟨token, hmem, hhash.resolve_right hne⟩
  · intro c g' x hg' hx
    obtain ⟨o, hg, hcell⟩ := hedit.cell hg'
    cases hcell with
    | same => exact hold (h.used c g' x hg hx)
    | actions _ _ hused | revoked _ _ hused => exact hold (h.used c _ x hg (hused ▸ hx))
    | rotated _ hcurrent _ hused =>
      rw [hused] at hx
      rcases mem_append.mp hx with hx | hx
      · exact hold (h.used c _ x hg hx)
      · rw [mem_singleton.mp hx]
        exact hold (h.current c _ hg hcurrent)
    | created _ _ _ hused =>
      rw [hused] at hx
      exact absurd hx not_mem_nil
  · intro c g' hg' hmem
    obtain ⟨o, hg, hcell⟩ := hedit.cell hg'
    cases hcell with
    | same => exact h.fresh c g' hg hmem
    | actions _ hhash hused =>
      rw [hhash, hused] at hmem
      exact h.fresh c _ hg hmem
    | revoked _ hhash hused =>
      -- no token has the empty hash
      rw [hhash, hused] at hmem
      obtain ⟨t, -, ht⟩ := h.used c _ _ hg hmem
      exact hash.ne_empty t ht.symm
    | rotated _ hcurrent hhash hused hnew =>
      rw [hhash, hused] at hmem
      obtain ⟨t, ht, heq⟩ : ∃ t, (t, c) ∈ s.drawn ∧ _ = hash.hash t := by
        rcases mem_append.mp hmem with hmem | hmem
        · exact h.used c _ _ hg hmem
        · rw [mem_singleton.mp hmem]
          exact h.current c _ hg hcurrent
      exact hnew (hash.injective heq ▸ mem_map_of_mem ht)
    | created _ _ _ hused =>
      rw [hused] at hmem
      exact not_mem_nil hmem
  · intro t c n g' hmem hg'
    rcases hlog t c n hmem with ⟨hmem, hc⟩ | hused
    · obtain ⟨o, hg, hcell⟩ := hedit.cell hg'
      cases hcell with
      | same => exact h.kept t c n g' hmem hg
      | actions _ _ hused | revoked _ _ hused =>
        rw [hused]
        exact h.kept t c n _ hmem hg
      | rotated _ _ _ hused =>
        rw [hused]
        exact mem_append_left _ (h.kept t c n _ hmem hg)
      | created hnew => exact absurd hc hnew
    · exact hused g' hg'

/-- The grant that holds or has held a token is that of the client it was drawn for. -/
theorem Rotation.owner (h : Rotation hash s st) {c t : String} {g : ClientGrant}
    (hg : st.grants.lookup c = some g)
    (hown : g.refreshHash = hash.hash t ∨ hash.hash t ∈ g.usedRefresh) : (t, c) ∈ s.drawn := by
  obtain ⟨t', ht', heq⟩ : ∃ t', (t', c) ∈ s.drawn ∧ hash.hash t = hash.hash t' := by
    rcases hown with hcurrent | hused
    · obtain ⟨t', ht', heq⟩ := h.current c g hg (hcurrent ▸ hash.ne_empty t)
      exact ⟨t', ht', hcurrent.symm.trans heq⟩
    · exact h.used c g _ hg hused
  exact hash.injective heq ▸ ht'

/-- **The loop of `Refresh` finds the owner of a token**, in whatever order it goes. -/
theorem Rotation.findRefresh (h : Rotation hash s st) (hnodup : (s.drawn.map fst).Nodup)
    {c t : String} {g : ClientGrant} (hg : st.grants.lookup c = some g)
    (hown : g.refreshHash = hash.hash t ∨ hash.hash t ∈ g.usedRefresh) {order : List String}
    (horder : order.isPerm st.grants.keys) : Authority.findRefresh st.grants (hash.hash t) order =
      some (c, g, decide (hash.hash t ∈ g.usedRefresh)) := by
  have hc : c ∈ order :=
    (isPerm_iff.mp horder).mem_iff.mpr (AList.mem_keys.mp (mem_of_lookup hg))
  clear horder
  -- any grant the loop stops at is the owner's
  have hunique : ∀ c' g', st.grants.lookup c' = some g' →
      (g'.refreshHash = hash.hash t ∨ hash.hash t ∈ g'.usedRefresh) → c' = c ∧ g' = g := by
    intro c' g' hg' hown'
    have heq := inj_on_of_nodup_map hnodup (h.owner hg' hown') (h.owner hg hown) rfl
    obtain rfl : c' = c := (mk.inj heq).2
    exact ⟨rfl, Option.mem_unique hg' hg⟩
  induction order with
  | nil => exact absurd hc not_mem_nil
  | cons c' order ih =>
    rw [Authority.findRefresh]
    cases hg' : st.grants.lookup c' with
    | none =>
      have hne : c ≠ c' := fun heq => by cases (heq ▸ hg).symm.trans hg'
      exact ih ((mem_cons.mp hc).resolve_left hne)
    | some g' =>
      dsimp only
      split
      · next hcurrent =>
        obtain ⟨rfl, rfl⟩ := hunique c' g' hg' (.inl hcurrent)
        rw [decide_eq_false (hcurrent ▸ h.fresh c' g' hg)]
      next hcurrent =>
      split
      · next hused =>
        obtain ⟨rfl, rfl⟩ := hunique c' g' hg' (.inr hused)
        rw [decide_eq_true hused]
      · next hused =>
        refine ih ((mem_cons.mp hc).resolve_left fun heq => ?_)
        subst heq
        cases hg'.symm.trans hg
        exact hown.elim hcurrent hused

end Content

/-! ## Runs -/

structure RotationInv (hash : TokenHash) (s : GrantState) : Prop where
  contents : ∀ st ∈ s.contents, Rotation hash s st
  nodup : (s.drawn.map Prod.fst).Nodup
  owners : ∀ t c n, .refreshed t c n ∈ s.log → (t, c) ∈ s.drawn ∧ c ∈ s.created
  once : (s.log.filterMap Outcome.presented).Nodup
  successors : (s.log.filterMap Outcome.successor).Nodup
  successors_drawn : ∀ n ∈ s.log.filterMap Outcome.successor, n ∈ s.drawn.map Prod.fst

section Runs

variable {s s' : GrantState}

theorem mem_presented {t : String} {log : List Outcome} :
    t ∈ log.filterMap presented ↔ ∃ c n, .refreshed t c n ∈ log := by
  rw [mem_filterMap]
  constructor
  · rintro ⟨o, ho, ht⟩
    cases o with
    | refreshed t' c n =>
      cases ht
      exact ⟨c, n, ho⟩
    | _ => cases ht
  · rintro ⟨c, n, hmem⟩
    exact ⟨_, hmem, rfl⟩

variable {g : ClientGrant}

theorem RotationInv.not_current (h : RotationInv hash s) {st : Registry} (hst : st ∈ s.contents)
    {t c n c' : String} (hmem : .refreshed t c n ∈ s.log)
    (hg : st.grants.lookup c' = some g) : g.refreshHash ≠ hash.hash t := by
  intro hcurrent
  have hrot := h.contents st hst
  have heq := inj_on_of_nodup_map h.nodup (hrot.owner hg (.inl hcurrent))
    (h.owners t c n hmem).1 rfl
  obtain rfl : c' = c := (mk.inj heq).2
  exact hrot.fresh c' g hg (hcurrent ▸ hrot.kept t c' n g hmem hg)

/-- Where an answer with a new successor leaves the successors. -/
theorem RotationInv.successor (h : RotationInv hash s) (hgrows : HistoryGrows s s') {o : Outcome}
    {c n : String} (hlog : s'.log = o :: s.log) (ho : o.successor = some n) (hnew : s.Undrawn n)
    (hdrawn : (n, c) ∈ s'.drawn) : (s'.log.filterMap successor).Nodup ∧
      ∀ m ∈ s'.log.filterMap successor, m ∈ s'.drawn.map fst := by
  rw [hlog, filterMap_cons_some ho]
  refine ⟨nodup_cons.mpr ⟨fun hmem => hnew (h.successors_drawn n hmem), h.successors⟩, ?_⟩
  refine forall_mem_cons.mpr ⟨mem_map_of_mem (f := fst) hdrawn, fun m hm => ?_⟩
  exact map_subset _ hgrows.drawn_subset (h.successors_drawn m hm)

theorem RotationInv.step (h : RotationInv hash s) {e : GrantEvent}
    (hstep : s.step hash life spentKey e = some s') : RotationInv hash s' := by
  obtain ⟨hcontents, hgrows, hlogs, -⟩ := step_facts (fun st hst => (h.contents st hst).known) hstep
  have hnodup : (s'.drawn.map fst).Nodup := by
    rcases hgrows.drawn with heq | ⟨t, c, heq, hnew⟩
    · exact heq ▸ h.nodup
    · rw [heq]
      exact nodup_cons.mpr ⟨hnew, h.nodup⟩
  have hsubset : ∀ m ∈ s.log.filterMap Outcome.successor, m ∈ s'.drawn.map fst :=
    fun m hm => map_subset _ hgrows.drawn_subset (h.successors_drawn m hm)
  -- an answer, if it is a refresh, uses up its token
  have hnext : (∀ t c n, .refreshed t c n ∈ s'.log → .refreshed t c n ∈ s.log ∨
        (∀ st ∈ s'.contents, ∀ g, st.grants.lookup c = some g → hash.hash t ∈ g.usedRefresh) ∧
          (t, c) ∈ s'.drawn ∧ c ∈ s'.created) →
      (s'.log.filterMap Outcome.presented).Nodup → (s'.log.filterMap Outcome.successor).Nodup →
      (∀ m ∈ s'.log.filterMap Outcome.successor, m ∈ s'.drawn.map fst) →
      RotationInv hash s' := by
    intro hlog honce hsucc hsuccd
    refine ⟨fun st' hst' => ?_, hnodup, fun t c n hmem => ?_, honce, hsucc, hsuccd⟩
    · obtain ⟨st, hst, hedit⟩ := hcontents st' hst'
      refine (h.contents st hst).edit hedit hgrows fun t c n hmem => ?_
      rcases hlog t c n hmem with hold | ⟨hused, -⟩
      · exact .inl ⟨hold, (h.owners t c n hold).2⟩
      · exact .inr (hused st' hst')
    · rcases hlog t c n hmem with hold | ⟨-, howner⟩
      · obtain ⟨ht, hc⟩ := h.owners t c n hold
        exact ⟨hgrows.drawn_subset ht, hgrows.created hc⟩
      · exact howner
  cases hlogs with
  | silent heq =>
    exact hnext (fun t c n hmem => .inl (heq ▸ hmem)) (heq ▸ h.once) (heq ▸ h.successors)
      (heq ▸ hsubset)
  | enrolled heq hnew hdrawn | uncertain heq hnew hdrawn =>
    obtain ⟨hsucc, hsuccd⟩ := h.successor hgrows heq rfl hnew hdrawn
    refine hnext (fun t c n hmem => .inl ?_) (heq ▸ h.once) hsucc hsuccd
    rw [heq] at hmem
    exact (mem_cons.mp hmem).resolve_left nofun
  | live heq ho _ =>
    refine hnext (fun t c n hmem => .inl ?_) ?_ ?_ ?_
    · rw [heq] at hmem
      refine (mem_cons.mp hmem).resolve_left fun h => ?_
      rcases ho with rfl | rfl | rfl <;> cases h
    · rw [heq]
      rcases ho with rfl | rfl | rfl <;> exact h.once
    · rw [heq]
      rcases ho with rfl | rfl | rfl <;> exact h.successors
    · rw [heq]
      rcases ho with rfl | rfl | rfl <;> exact hsubset
  | revoked heq =>
    refine hnext (fun t c n hmem => .inl ?_) (heq ▸ h.once) (heq ▸ h.successors) (heq ▸ hsubset)
    rw [heq] at hmem
    exact (mem_cons.mp hmem).resolve_left nofun
  | @refreshed t c n a g heq ha hg hlive hcurrent hused hnew hdrawn =>
    obtain ⟨hsucc, hsuccd⟩ := h.successor hgrows heq rfl hnew hdrawn
    have hregistry := h.contents _ (registry_mem ha)
    refine hnext (fun t' c' n' hmem => ?_) ?_ hsucc hsuccd
    · rw [heq] at hmem
      rcases mem_cons.mp hmem with heq | hold
      · cases heq
        exact .inr ⟨hused, hgrows.drawn_subset (hregistry.owner hg (.inl hcurrent)),
          hgrows.created (hregistry.known c (mem_of_lookup hg))⟩
      · exact .inl hold
    · -- the token was current, so it was not answered before
      rw [heq]
      refine nodup_cons.mpr ⟨fun hpresented => ?_, h.once⟩
      obtain ⟨c', n', hold⟩ := mem_presented.mp hpresented
      exact h.not_current (registry_mem ha) hold hg hcurrent

theorem rotationInv_of_run {generation : String} {es : List GrantEvent}
    (hrun : exec (GrantState.step hash life spentKey) (.blank generation) es = some s) :
    RotationInv hash s := by
  refine exec_invariant (RotationInv hash) (fun _ _ _ h hstep => h.step hstep) ?_ hrun
  refine ⟨fun st hst => ?_, nodup_nil, (fun _ _ _ h => absurd h not_mem_nil),
    nodup_nil, nodup_nil, fun _ h => absurd h not_mem_nil⟩
  obtain rfl : st = ⟨generation, ∅⟩ := mem_singleton.mp hst
  exact ⟨fun c hc => absurd hc (notMem_empty c), nofun, nofun, nofun, nofun⟩

variable {a : Authority} {call : RefreshCall}

/-- **A refresh that was not committed leaves its token usable.** -/
theorem RotationInv.retry (h : RotationInv hash s) (ha : s.process = some a)
    (hanswer : (a.refresh hash life s.disk call).2.2 = .error .notCommitted) :
    (a.refresh hash life s.disk call).2.1 = s.disk ∧
      ∃ c g, a.registry.grants.lookup c = some g ∧ g.refreshHash = hash.hash call.token ∧
        (∀ c', (a.refresh hash life s.disk call).1.registry.grants.lookup c' =
          a.registry.grants.lookup c') ∧
        ∀ retry : RefreshCall, retry.token = call.token → retry.commit = .ok →
          retry.order.isPerm (a.refresh hash life s.disk call).1.registry.grants.keys →
          retry.now < g.absoluteExpiry → retry.now < g.lastRefreshAt + g.idleTTL →
          ∃ resp, ((a.refresh hash life s.disk call).1.refresh hash life s.disk retry).2.2 =
            .ok resp ∧ resp.refreshToken = retry.next := by
  obtain ⟨c, g, hissuable, hfind, hrot, heq⟩ := refresh_inv (.inr hanswer)
  obtain ⟨hg, hcurrent, -⟩ := findRefresh_eq_some hfind
  have hcommit : call.commit = .notCommitted := by
    rw [heq, rotateGrant] at hanswer
    cases hcommit : call.commit with
    | ok | ambiguous => simp [hcommit] at hanswer
    | notCommitted => rfl
  have hrolled : a.rotateGrant hash life s.disk c g call =
      (a.setGrant c g, s.disk, .error .notCommitted) := by
    simp only [rotateGrant, hcommit, Authority.rotate, take_left]
  have hlookup : ∀ c', (a.setGrant c g).registry.grants.lookup c' =
      a.registry.grants.lookup c' := by
    intro c'
    rw [setGrant, lookup_insert_ite]
    split
    next heq => rw [heq, hg]
    next => rfl
  rw [heq, hrolled]
  refine ⟨rfl, c, g, hg, hcurrent rfl, hlookup, fun retry htoken hok horder habs hidle => ?_⟩
  have hg' := (hlookup c).trans hg
  have hrotation : Rotation hash s (a.setGrant c g).registry := by
    refine (h.contents _ (registry_mem ha)).edit (fun c' => ?_) ⟨List.Subset.refl _, .inl rfl⟩
      fun t c n hmem => .inl ⟨hmem, (h.owners t c n hmem).2⟩
    rw [hlookup]
    exact .same _
  have hfind' := hrotation.findRefresh h.nodup hg' (.inl (hcurrent rfl)) horder
  rw [← hcurrent rfl, decide_eq_false (hrotation.fresh c g hg'), hcurrent rfl, ← htoken] at hfind'
  rw [refresh_eq_rotateGrant (a := a.setGrant c g) hissuable hfind'
    { hrot with absolute := habs, idle := hidle }]
  simp only [rotateGrant, hok]
  exact ⟨_, rfl, rfl⟩

theorem RotationInv.withheld (h : RotationInv hash s) {t c n : String}
    (hmem : .uncertain t c n ∈ s.log) : n ∉ s.log.filterMap handed := by
  intro hhanded
  obtain ⟨o, ho, hn⟩ := mem_filterMap.mp hhanded
  obtain ⟨l, r, heq⟩ := append_of_mem hmem
  have hsucc : (l.filterMap Outcome.successor ++ n :: r.filterMap Outcome.successor).Nodup := by
    have := h.successors
    rwa [heq, filterMap_append] at this
  have hother : n ∉ l.filterMap Outcome.successor ∧ n ∉ r.filterMap Outcome.successor := by
    obtain ⟨-, hr, hdisjoint⟩ := nodup_append.mp hsucc
    exact ⟨fun hl => hdisjoint n hl n mem_cons_self rfl, (nodup_cons.mp hr).1⟩
  have hsuccessor : o.successor = some n := by
    cases o <;> first | exact hn | cases hn
  rw [heq] at ho
  rcases mem_append.mp ho with ho | ho
  · exact hother.1 (mem_filterMap.mpr ⟨o, ho, hsuccessor⟩)
  rcases mem_cons.mp ho with rfl | ho
  · cases hn
  · exact hother.2 (mem_filterMap.mpr ⟨o, ho, hsuccessor⟩)

end Runs

/-- **Refresh rotation**, in every run: no token is answered with a successor twice; presenting, to
    an authority that issues tokens, one that was answered or is otherwise used has its grant
    revoked, durably if that commits; a refresh that was not committed changes nothing, and its token
    can be used again; and a successor whose commit was ambiguous is never handed out. -/
theorem refresh_tokens_rotate {generation : String} {es : List GrantEvent} {s : GrantState}
    (hrun : exec (GrantState.step hash life spentKey) (.blank generation) es = some s) :
    (s.log.filterMap Outcome.presented).Nodup ∧
      (∀ a c t g (call : RefreshCall), s.process = some a → a.issuable = .ok () →
        a.registry.grants.lookup c = some g →
        ((∃ n, .refreshed t c n ∈ s.log) ∨ hash.hash t ∈ g.usedRefresh) →
        call.token = t → call.order.isPerm a.registry.grants.keys →
        (a.refresh hash life s.disk call).2.2 =
            .error (.revoked "refresh token reuse" (call.commit = .ok)) ∧
          (∃ g', (a.refresh hash life s.disk call).1.registry.grants.lookup c = some g' ∧
            g'.revokedAt ≠ 0 ∧ g'.refreshHash = "") ∧
          (call.commit = .ok → ∀ st ∈ (a.refresh hash life s.disk call).2.1,
            ∃ g', st.grants.lookup c = some g' ∧ g'.revokedAt ≠ 0)) ∧
      (∀ a (call : RefreshCall), s.process = some a →
        (a.refresh hash life s.disk call).2.2 = .error .notCommitted →
        (a.refresh hash life s.disk call).2.1 = s.disk ∧
          ∃ c g, a.registry.grants.lookup c = some g ∧ g.refreshHash = hash.hash call.token ∧
            (∀ c', (a.refresh hash life s.disk call).1.registry.grants.lookup c' =
              a.registry.grants.lookup c') ∧
            ∀ retry : RefreshCall, retry.token = call.token → retry.commit = .ok →
              retry.order.isPerm (a.refresh hash life s.disk call).1.registry.grants.keys →
              retry.now < g.absoluteExpiry → retry.now < g.lastRefreshAt + g.idleTTL →
              ∃ resp, ((a.refresh hash life s.disk call).1.refresh hash life s.disk retry).2.2 =
                .ok resp ∧ resp.refreshToken = retry.next) ∧
      ∀ t c n, .uncertain t c n ∈ s.log → n ∉ s.log.filterMap Outcome.handed := by
  have hinv := rotationInv_of_run hrun
  refine ⟨hinv.once, fun a c t g call ha hissuable hg hconsumed ht horder => ?_,
    fun a call ha hanswer => hinv.retry ha hanswer, fun t c n hmem => hinv.withheld hmem⟩
  have hused : hash.hash t ∈ g.usedRefresh := by
    rcases hconsumed with ⟨n, hmem⟩ | hused
    · exact (hinv.contents _ (registry_mem ha)).kept t c n g hmem hg
    · exact hused
  have hfind := (hinv.contents _ (registry_mem ha)).findRefresh hinv.nodup hg (.inr hused) horder
  rw [decide_eq_true hused] at hfind
  simp only [Authority.refresh, hissuable, ht, hfind]
  have hlookup : (a.markRevoked c "refresh token reuse" call.now g).registry.grants.lookup c =
      some (g.markRevoked "refresh token reuse" call.now) := by
    rw [Authority.markRevoked, setGrant, lookup_insert]
  have hrevoked := markRevoked_revokedAt "refresh token reuse" call.now g
  refine ⟨rfl, ⟨_, ?_, hrevoked, rfl⟩, fun hok st hst => ⟨_, ?_, hrevoked⟩⟩
  · unfold revokeRefresh
    cases call.commit <;> exact hlookup
  · simp only [revokeRefresh, hok] at hst
    rw [mem_singleton.mp hst]
    exact hlookup

/-! ## A run, and an authority that has stopped issuing -/

theorem mark_injective {s t : String} (h : "#" ++ s = "#" ++ t) : s = t := by
  simpa using h

theorem mark_ne_empty (t : String) : "#" ++ t ≠ "" := by
  intro h
  simpa using congrArg String.length h

/-- A hash that does not collide. -/
def sampleHash : TokenHash where
  hash t := "#" ++ t
  injective := fun _ _ => mark_injective
  ne_empty := mark_ne_empty

def sampleLife : Lifetimes := ⟨600, 2592000, 7776000⟩

/-- A first process enrolls a client and rotates its token once. -/
def enrollAndRotate : List GrantEvent :=
  [.load 0 ⟨"server", "g1"⟩ "b1" ⟨1, by decide⟩ .ok .ok,
    .redeem ⟨"a0", "r0", "c", ["read"], ⟨"all_sessions", []⟩, ⟨1, by decide⟩, .ok⟩,
    .refresh ⟨"r0", "a1", "r1", ⟨2, by decide⟩, ["c"], .ok⟩]

/-- The client presents its first token again. -/
theorem refresh_tokens_rotate_reuse :
    ∃ s a, exec (GrantState.step sampleHash sampleLife id) (.blank "") enrollAndRotate = some s ∧
      s.process = some a ∧
      ∃ g', (a.refresh sampleHash sampleLife s.disk
        ⟨"r0", "a2", "r2", ⟨3, by decide⟩, ["c"], .ok⟩).1.registry.grants.lookup "c" = some g' ∧
        g'.revokedAt ≠ 0 := by
  simp only [exists_and_left]
  refine reaches_imp (P := fun s => .refreshed "r0" "c" "r1" ∈ s.log ∧ ∃ a, s.process = some a ∧
    a.closed = false ∧ a.degraded = false ∧ a.registry.grants.keys = ["c"] ∧
    (a.registry.grants.lookup "c").isSome) (by decide +kernel) ?_
  rintro s hs ⟨hmem, a, ha, hclosed, hdegraded, hkeys, hsome⟩
  obtain ⟨g, hg⟩ := Option.isSome_iff_exists.mp hsome
  have hissuable : a.issuable = .ok () := by simp [Authority.issuable, hclosed, hdegraded]
  obtain ⟨-, ⟨g', hg', hrevoked, -⟩, -⟩ :=
    (refresh_tokens_rotate hs).2.1 a "c" "r0" g ⟨"r0", "a2", "r2", ⟨3, by decide⟩, ["c"], .ok⟩ ha
      hissuable hg (.inl ⟨"r1", hmem⟩) rfl (by rw [hkeys]; decide)
  exact ⟨a, ha, g', hg', hrevoked⟩

/-- **After an ambiguous commit** of any operation the authority refuses every token before it looks
    at it: the used token is presented and its grant stays live. -/
theorem degraded_reuse_keeps_grant :
    ∃ s a g, exec (GrantState.step sampleHash sampleLife id) (.blank "")
        (enrollAndRotate ++ [.other 3 .ambiguous,
          .refresh ⟨"r0", "a2", "r2", ⟨4, by decide⟩, ["c"], .ok⟩]) = some s ∧
      .refreshed "r0" "c" "r1" ∈ s.log ∧ s.process = some a ∧ a.closed = false ∧
      a.registry.grants.lookup "c" = some g ∧ g.revokedAt = 0 ∧
      g.refreshHash = sampleHash.hash "r1" := by
  simp only [exists_and_left]
  decide +kernel

end AgentMultiplexer.Direct
