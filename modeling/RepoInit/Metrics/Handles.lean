/-
# Registry ids as handles

Two or more clients create and delete registries of one `PrometheusServer`. The
next id is one more than the last one stored, so it is the id of the newest
registry again once that was deleted, and who deletes it a second time deletes
what another client has created since. Ids are not reported again exactly if at
every creation the newest registry is still stored (`notRecycled_iff`): then
the id is one less than the number of registries made (`Numbered.nextId_eq`).

Key definitions: `NotRecycled`, `NewestKept`, `Numbered`.
Key theorems: `newestKept_numbered`, `NewestKept.fresh`, `NewestKept.reported_again`,
`notRecycled_iff`.
-/
import RepoInit.Lib.Prefixes
import RepoInit.Metrics.PrometheusServer

namespace RepoInit
namespace Metrics

variable {γ : Type*}

/-- The server after the calls of some clients, in the order they got the lock. -/
def after (calls : List (γ × Call)) : PrometheusServer := run (calls.map Prod.snd)

def PrometheusServer.stored (srv : PrometheusServer) : List Registry := srv.vRegister.map Prod.snd

/-- A deletion that finds a registry under the id, and returns true. -/
def Removes (regId : UInt64) (srv : PrometheusServer) : Prop :=
  (deleteRegistry regId srv).1 = true ∧ (getRegistry regId srv).isSome

instance (regId : UInt64) (srv : PrometheusServer) : Decidable (Removes regId srv) :=
  inferInstanceAs (Decidable (_ ∧ _))

/-- A call of the client gave the registry. -/
def CreatedBy (calls : List (γ × Call)) (c : γ) (reg : Registry) : Prop :=
  ∃ before, before ++ [(c, .create)] <+: calls ∧ (createNewRegistry (after before)).1.2 = reg

/-- No id of a deleted registry is reported again, and who deletes one twice
takes nobody else's registry. -/
structure NotRecycled (calls : List (γ × Call)) : Prop where
  fresh : ∀ before c regId mid c',
    before ++ (c, .delete regId) :: mid ++ [(c', .create)] <+: calls →
      Removes regId (after before) →
        (createNewRegistry (after (before ++ (c, .delete regId) :: mid))).1.1 ≠ regId
  harmless : ∀ before c regId mid,
    before ++ (c, .delete regId) :: mid ++ [(c, .delete regId)] <+: calls →
      Removes regId (after before) → ∀ c' reg, c' ≠ c →
        CreatedBy (before ++ (c, .delete regId) :: mid) c' reg →
          reg ∈ (after (before ++ (c, .delete regId) :: mid)).stored →
            reg ∈ (after (before ++ (c, .delete regId) :: mid ++ [(c, .delete regId)])).stored

/-- The registry made last, the information registry at first. -/
def PrometheusServer.newest (srv : PrometheusServer) : Registry := ⟨srv.made - 1⟩

/-- Whenever a registry is created, the newest one is still stored. -/
def NewestKept (calls : List (γ × Call)) : Prop :=
  ∀ before c, before ++ [(c, .create)] <+: calls → (after before).newest ∈ (after before).stored

/-- Call by call. -/
theorem newestKept_iff {calls : List (γ × Call)} :
    NewestKept calls ↔ ∀ k < calls.length, calls[k]?.map Prod.snd = some .create →
      (after (calls.take k)).newest ∈ (after (calls.take k)).stored := by
  constructor
  · intro h k hk hcreate
    rw [List.getElem?_eq_getElem hk] at hcreate
    have hstep : calls[k] = (calls[k].1, Call.create) := Prod.ext rfl (by simpa using hcreate)
    refine h (calls.take k) calls[k].1 ?_
    rw [← hstep, List.take_append_getElem hk]
    exact List.take_prefix _ _
  · rintro h before c ⟨t, rfl⟩
    have := h before.length (by simp) (by simp)
    simpa using this

instance (calls : List (γ × Call)) : Decidable (NewestKept calls) := by
  refine @decidable_of_iff' _ _ newestKept_iff ?_
  unfold PrometheusServer.newest
  infer_instance

/-! ### Steps -/

theorem after_concat (calls : List (γ × Call)) (c : γ) (call : Call) :
    after (calls ++ [(c, call)]) = call.apply (after calls) := by
  simp [after, run_concat]

theorem NewestKept.before {calls before : List (γ × Call)} (h : NewestKept calls)
    (hb : before <+: calls) : NewestKept before :=
  fun before' c hb' => h before' c (hb'.trans hb)

theorem newestKept_step {calls : List (γ × Call)} :
    NewestKept calls ↔ ∀ before step, before ++ [step] <+: calls → ∀ c, step = (c, .create) →
      (after before).newest ∈ (after before).stored := by
  refine ⟨fun h before step hb c hstep => h before c (hstep ▸ hb), fun h before c hb => ?_⟩
  exact h before (c, .create) hb c rfl

theorem newestKept_append {calls : List (γ × Call)} {step : γ × Call} :
    NewestKept (calls ++ [step]) ↔ NewestKept calls ∧
      ∀ c, step = (c, .create) → (after calls).newest ∈ (after calls).stored := by
  rw [newestKept_step, newestKept_step]
  exact Prefixes.forall_step_append

theorem creations_le {before calls : List (γ × Call)} (hb : before <+: calls) :
    creations (before.map Prod.snd) ≤ creations (calls.map Prod.snd) :=
  (hb.map Prod.snd).sublist.count_le _

theorem made_after (calls : List (γ × Call)) :
    (after calls).made = creations (calls.map Prod.snd) + 1 := made_run _

theorem made_mono {before calls : List (γ × Call)} (hb : before <+: calls) :
    (after before).made ≤ (after calls).made := by
  have := creations_le hb
  rw [made_after, made_after]
  omega

theorem after_ordered {calls : List (γ × Call)} (hn : creations (calls.map Prod.snd) < 2 ^ 64 - 1) :
    ∃ rest, Ordered (after calls) rest ∧ (after calls).made < 2 ^ 64 := by
  obtain ⟨rest, h⟩ := run_ordered (calls.map Prod.snd) hn
  refine ⟨rest, h, ?_⟩
  rw [made_after]
  omega

theorem removes_of_mem {srv : PrometheusServer} {regId : UInt64} {reg : Registry}
    (hid : regId ≠ infoId) (h : (regId, reg) ∈ srv.vRegister) : Removes regId srv := by
  refine ⟨by simp [deleteRegistry, hid], ?_⟩
  rw [Option.isSome_iff_ne_none]
  intro hnone
  exact getRegistry_eq_none.mp hnone _ h rfl

theorem Removes.ne_info {srv : PrometheusServer} {regId : UInt64} (hr : Removes regId srv) :
    regId ≠ infoId := by
  rintro rfl
  simpa [deleteRegistry_info] using hr.1

/-- An id that was looked up is stored behind the information registry. -/
theorem Removes.exists_mem {srv : PrometheusServer} {rest : List (UInt64 × Registry)}
    (h : Ordered srv rest) {regId : UInt64} (hr : Removes regId srv) :
    ∃ reg, (regId, reg) ∈ rest := by
  have hid := hr.ne_info
  obtain ⟨-, hsome⟩ := hr
  have hmem : ∃ val ∈ srv.vRegister, val.1 = regId := by
    by_contra hno
    push Not at hno
    rw [getRegistry_eq_none.mpr hno] at hsome
    simp at hsome
  obtain ⟨⟨regId', reg⟩, hval, rfl⟩ := hmem
  rw [h.register] at hval
  rcases List.mem_cons.mp hval with heq | hval
  · exact absurd (congrArg Prod.fst heq) hid
  · exact ⟨reg, hval⟩

/-! ### Ids that number the registries -/

/-- Every id is one less than the number of its registry. -/
def Numbered (rest : List (UInt64 × Registry)) : Prop := ∀ a ∈ rest, a.1.toNat + 1 = a.2.object

section NumberedFacts

variable {srv : PrometheusServer} {rest : List (UInt64 × Registry)}

/-- The last registry stored is the newest of those stored. -/
theorem Ordered.le_last {init : List (UInt64 × Registry)} {a : UInt64 × Registry}
    (h : Ordered srv (init ++ [a])) : ∀ b ∈ init ++ [a], b.2.object ≤ a.2.object := by
  intro b hb
  rcases List.mem_append.mp hb with hb | hb
  · exact ((List.pairwise_append.mp h.increasing).2.2 b hb a (by simp)).2.le
  · rw [List.mem_singleton.mp hb]

theorem Ordered.mem_stored (h : Ordered srv rest) {reg : Registry} (hr : 0 < reg.object) :
    reg ∈ srv.stored ↔ ∃ regId, (regId, reg) ∈ rest := by
  have hinfo : reg ≠ infoRegistry := by
    rintro rfl
    exact lt_irrefl _ hr
  simp [PrometheusServer.stored, h.register, hinfo]

/-- With the newest registry stored, the next id is one less than the number of
registries made. -/
theorem Numbered.nextId_eq (hnum : Numbered rest) (h : Ordered srv rest) (hn : srv.made < 2 ^ 64)
    (hnew : srv.newest ∈ srv.stored) : (createNewRegistry srv).1.1.toNat + 1 = srv.made := by
  have hpos := h.some
  by_cases hone : srv.made = 1
  · -- only the information registry was made
    have hbehind := (h.nextId_spec hn).2
    omega
  · obtain ⟨regId, hmem⟩ := (@Ordered.mem_stored _ _ h srv.newest (by
      show 0 < srv.made - 1
      omega)).mp hnew
    rcases h.nextId with ⟨rfl, -⟩ | ⟨init, a, rfl, hid⟩
    · simp at hmem
    · have ha : a ∈ init ++ [a] := by simp
      have hle : srv.made - 1 ≤ a.2.object := h.le_last _ hmem
      have hlt := h.made a ha
      have hnuma := hnum a ha
      rw [hid, h.toNat_succ hn ha]
      omega

/-- Otherwise it is the id of a registry that is not stored any more. -/
theorem Numbered.nextId_old (hnum : Numbered rest) (h : Ordered srv rest) (hn : srv.made < 2 ^ 64)
    (hnew : srv.newest ∉ srv.stored) :
    (createNewRegistry srv).1.1.toNat + 1 < srv.made ∧
      ⟨(createNewRegistry srv).1.1.toNat + 1⟩ ∉ srv.stored := by
  have hpos := h.some
  have hone : srv.made ≠ 1 := by
    intro hone
    refine hnew ?_
    simp [PrometheusServer.stored, PrometheusServer.newest, h.register, hone, infoRegistry]
  rcases h.nextId with ⟨rfl, hid⟩ | ⟨init, a, rfl, hid⟩
  · rw [hid]
    refine ⟨?_, ?_⟩
    · show 0 + 1 < srv.made
      omega
    · rw [h.mem_stored (by exact Nat.succ_pos _)]
      simp
  · have ha : a ∈ init ++ [a] := by simp
    have hlt := h.made a ha
    have hnuma := hnum a ha
    have hlast : a.2.object ≠ srv.made - 1 := by
      intro heq
      refine hnew ?_
      rw [show srv.newest = a.2 by rw [PrometheusServer.newest, ← heq], PrometheusServer.stored,
        h.register]
      exact List.mem_map_of_mem (List.mem_cons_of_mem _ ha)
    rw [hid, h.toNat_succ hn ha]
    refine ⟨by omega, ?_⟩
    rw [h.mem_stored (by exact Nat.succ_pos _)]
    rintro ⟨regId, hmem⟩
    have hle : a.1.toNat + 1 + 1 ≤ a.2.object := h.le_last _ hmem
    omega

end NumberedFacts

/-- While the newest registry is stored at every creation, ids number the
registries. -/
theorem newestKept_numbered {calls : List (γ × Call)}
    (hn : creations (calls.map Prod.snd) < 2 ^ 64 - 1) (hk : NewestKept calls) :
    ∃ rest, Ordered (after calls) rest ∧ Numbered rest := by
  induction calls using List.reverseRecOn with
  | nil => exact ⟨[], ordered_new, by simp [Numbered]⟩
  | append_singleton calls step ih =>
    obtain ⟨c, call⟩ := step
    have hpre : calls <+: calls ++ [(c, call)] := List.prefix_append _ _
    have hn' := (creations_le hpre).trans_lt hn
    obtain ⟨rest, h, hnum⟩ := ih hn' (hk.before hpre)
    obtain ⟨-, -, hlt⟩ := after_ordered hn'
    rw [after_concat]
    cases call with
    | get regId => exact ⟨rest, h, hnum⟩
    | create =>
      have hid := hnum.nextId_eq h hlt (hk calls c (List.prefix_refl _))
      refine ⟨_, h.create hlt, fun a ha => ?_⟩
      rcases List.mem_append.mp ha with ha | ha
      · exact hnum a ha
      · rw [List.mem_singleton.mp ha]
        exact hid
    | delete regId =>
      by_cases hinfo : regId = infoId
      · rw [Call.apply, hinfo, deleteRegistry_info]
        exact ⟨rest, h, hnum⟩
      · exact ⟨_, h.delete hinfo, fun a ha => hnum a (List.mem_of_mem_filter ha)⟩

/-! ### Who takes a registry -/

/-- A registry that is not stored any more was deleted under its id. -/
theorem exists_delete {calls : List (γ × Call)} (hn : creations (calls.map Prod.snd) < 2 ^ 64 - 1)
    {reg : Registry} (hpos : 0 < reg.object) (hmade : reg.object < (after calls).made)
    (hout : reg ∉ (after calls).stored) :
    ∃ before c regId mid, calls = before ++ (c, .delete regId) :: mid ∧ regId ≠ infoId ∧
      (regId, reg) ∈ (after before).vRegister := by
  induction calls using List.reverseRecOn with
  | nil =>
    have : reg.object < 1 := hmade
    omega
  | append_singleton calls step ih =>
    obtain ⟨c, call⟩ := step
    have hn' := (creations_le (List.prefix_append calls [(c, call)])).trans_lt hn
    rw [after_concat] at hmade hout
    -- what went earlier is still in front of the last call
    have hearlier : reg.object < (after calls).made → reg ∉ (after calls).stored →
        ∃ before c' regId mid, calls ++ [(c, call)] = before ++ (c', .delete regId) :: mid ∧
          regId ≠ infoId ∧ (regId, reg) ∈ (after before).vRegister := by
      intro hm ho
      obtain ⟨before, c', regId, mid, rfl, hid, hmem⟩ := ih hn' hm ho
      exact ⟨before, c', regId, mid ++ [(c, call)], by simp, hid, hmem⟩
    cases call with
    | get regId => exact hearlier hmade hout
    | create =>
      have hstored : (after calls).stored ++ [(createNewRegistry (after calls)).1.2] =
          (Call.create.apply (after calls)).stored := by
        simp [PrometheusServer.stored, Call.apply, createNewRegistry]
      rw [← hstored] at hout
      have hne : reg ≠ (createNewRegistry (after calls)).1.2 := fun h => hout (by simp [h])
      have hobj : reg.object ≠ (after calls).made := by
        intro h
        exact hne (congrArg Registry.mk h)
      have hlt : reg.object < (after calls).made + 1 := hmade
      exact hearlier (by omega) fun h => hout (List.mem_append_left _ h)
    | delete regId =>
      by_cases hid : regId = infoId
      · rw [Call.apply, hid, deleteRegistry_info] at hmade hout
        exact hearlier hmade hout
      · have hm : reg.object < (after calls).made := by
          simpa [Call.apply, deleteRegistry, hid] using hmade
        by_cases ho : reg ∈ (after calls).stored
        · obtain ⟨⟨regId', reg'⟩, hmem, rfl⟩ := List.mem_map.mp ho
          have hsame : regId = regId' := by
            by_contra hne
            refine hout ?_
            simp only [Call.apply, deleteRegistry, hid, dif_neg, not_false_eq_true,
              PrometheusServer.stored]
            refine List.mem_map.mpr ⟨(regId', reg'), List.mem_filter.mpr ⟨hmem, ?_⟩, rfl⟩
            simpa using hne
          exact ⟨calls, c, regId, [], rfl, hid, by rw [hsame]; exact hmem⟩
        · exact hearlier hm ho

/-- What was deleted and is not reported again is not stored later. -/
theorem getRegistry_after_delete {before mid : List (γ × Call)} {c : γ} {regId : UInt64}
    (hr : Removes regId (after before))
    (hfresh : ∀ mid' c', mid' ++ [(c', Call.create)] <+: mid →
      (createNewRegistry (after (before ++ (c, .delete regId) :: mid'))).1.1 ≠ regId) :
    getRegistry regId (after (before ++ (c, .delete regId) :: mid)) = none := by
  have hid := hr.ne_info
  induction mid using List.reverseRecOn with
  | nil =>
    rw [after_concat, Call.apply, getRegistry_delete, if_pos ⟨rfl, hid⟩]
  | append_singleton mid step ih =>
    obtain ⟨c', call⟩ := step
    have hnone := ih fun mid' c'' h => hfresh mid' c'' (h.trans (List.prefix_append _ _))
    rw [← List.cons_append, ← List.append_assoc, after_concat]
    cases call with
    | get regId' => exact hnone
    | create =>
      have hne := hfresh mid c' (List.prefix_refl _)
      rw [Call.apply, getRegistry_create, hnone, if_neg (Ne.symm hne)]
      rfl
    | delete regId' =>
      rw [Call.apply, getRegistry_delete, hnone, ite_self]

/-- A deletion that finds nothing leaves the store as it is. -/
theorem stored_delete {srv : PrometheusServer} {regId : UInt64}
    (h : getRegistry regId srv = none) : (deleteRegistry regId srv).2.stored = srv.stored := by
  by_cases hid : regId = infoId
  · rw [hid, deleteRegistry_info]
  · have hfilter : (srv.vRegister.filter fun val => !(regId == val.1)) = srv.vRegister := by
      rw [List.filter_eq_self]
      intro val hval
      simpa using (getRegistry_eq_none.mp h val hval).symm
    simp only [deleteRegistry, hid, dif_neg, not_false_eq_true, PrometheusServer.stored, hfilter]

/-- While the newest registry is kept, the next id is above every id under which
a registry was stored. -/
theorem NewestKept.fresh {before mid : List (γ × Call)} {regId : UInt64} {c : γ}
    (hn : creations ((before ++ mid).map Prod.snd) < 2 ^ 64 - 1)
    (hk : NewestKept (before ++ mid ++ [(c, .create)])) (hr : Removes regId (after before)) :
    (createNewRegistry (after (before ++ mid))).1.1 ≠ regId := by
  intro heq
  have hbefore : before <+: before ++ mid := List.prefix_append _ _
  have hmid := hk.before (List.prefix_append (before ++ mid) [(c, .create)])
  obtain ⟨rest, hord, hnum⟩ := newestKept_numbered hn hmid
  obtain ⟨rest₀, hord₀, hnum₀⟩ := newestKept_numbered ((creations_le hbefore).trans_lt hn)
    (hmid.before hbefore)
  obtain ⟨-, -, hlt⟩ := after_ordered hn
  have hid := hnum.nextId_eq hord hlt (hk _ c (List.prefix_refl _))
  obtain ⟨reg, hreg⟩ := hr.exists_mem hord₀
  have hreg₁ : regId.toNat + 1 = reg.object := hnum₀ _ hreg
  have hreg₂ : reg.object < (after before).made := hord₀.made _ hreg
  have hmade := made_mono hbefore
  rw [heq] at hid
  omega

/-- Without the newest registry, the next id is that of a registry that was
deleted under it. -/
theorem NewestKept.reported_again {calls : List (γ × Call)}
    (hn : creations (calls.map Prod.snd) < 2 ^ 64 - 1) (hk : NewestKept calls)
    (hnew : (after calls).newest ∉ (after calls).stored) :
    ∃ before c mid,
      calls = before ++ (c, .delete (createNewRegistry (after calls)).1.1) :: mid ∧
        Removes (createNewRegistry (after calls)).1.1 (after before) := by
  obtain ⟨rest, hord, hnum⟩ := newestKept_numbered hn hk
  obtain ⟨-, -, hlt⟩ := after_ordered hn
  obtain ⟨hold, hout⟩ := hnum.nextId_old hord hlt hnew
  obtain ⟨before, c, regId, mid, hcalls, hid, hmem⟩ :=
    exists_delete hn (by exact Nat.succ_pos _) hold hout
  have hbefore : before <+: calls := ⟨_, hcalls.symm⟩
  obtain ⟨rest₀, hord₀, hnum₀⟩ := newestKept_numbered ((creations_le hbefore).trans_lt hn)
    (hk.before hbefore)
  have hsame : (createNewRegistry (after calls)).1.1 = regId := by
    rw [hord₀.register] at hmem
    rcases List.mem_cons.mp hmem with heq | hmem
    · exact absurd (congrArg Prod.fst heq) hid
    · have hobj : regId.toNat + 1 = (createNewRegistry (after calls)).1.1.toNat + 1 :=
        hnum₀ _ hmem
      exact UInt64.toNat_inj.mp (by omega)
  rw [hsame]
  exact ⟨before, c, mid, hcalls, removes_of_mem hid hmem⟩

/-- **Ids are handles while the newest registry is kept.** With fewer than
`2^64 - 1` creations, in every interleaving: no deleted id is reported again,
and repeated deletions are harmless, exactly if every creation finds the newest
registry stored. -/
theorem notRecycled_iff (calls : List (γ × Call))
    (hn : creations (calls.map Prod.snd) < 2 ^ 64 - 1) :
    NotRecycled calls ↔ NewestKept calls := by
  constructor
  · intro h
    -- the first creation without the newest registry reports an id again
    have hprefix : ∀ before, before <+: calls → NewestKept before := by
      refine Prefixes.prefix_induction (newestKept_step.mpr Prefixes.forall_step_nil)
        fun before step hb hbefore => ?_
      refine newestKept_append.mpr ⟨hbefore, fun c hstep => ?_⟩
      subst hstep
      by_contra hnew
      have hlt := (creations_le ((List.prefix_append before _).trans hb)).trans_lt hn
      obtain ⟨before₀, c₀, mid, hcalls, hr⟩ := hbefore.reported_again hlt hnew
      refine h.fresh before₀ c₀ _ mid c ?_ hr ?_
      · rw [← hcalls]
        exact hb
      · rw [← hcalls]
    exact hprefix calls (List.prefix_refl _)
  · intro hk
    have hfresh : ∀ before c regId mid c',
        before ++ (c, .delete regId) :: mid ++ [(c', .create)] <+: calls →
          Removes regId (after before) →
            (createNewRegistry (after (before ++ (c, .delete regId) :: mid))).1.1 ≠ regId := by
      intro before c regId mid c' hb hr
      have hmid := (List.prefix_append (before ++ (c, .delete regId) :: mid) _).trans hb
      exact NewestKept.fresh ((creations_le hmid).trans_lt hn) (hk.before hb) hr
    refine ⟨hfresh, fun before c regId mid hb hr c' reg hne hby hstored => ?_⟩
    have hnone : getRegistry regId (after (before ++ (c, .delete regId) :: mid)) = none := by
      refine getRegistry_after_delete hr ?_
      rintro mid' c'' ⟨t, rfl⟩
      refine hfresh before c regId mid' c'' (List.IsPrefix.trans ?_ hb) hr
      exact ⟨t ++ [(c, .delete regId)], by simp⟩
    rw [after_concat, Call.apply, stored_delete hnone]
    exact hstored

/-- The first client keeps the id of the registry it deleted, the second is
reported the same id, and loses its registry to the first one's second call. -/
def staleCalls : List (Bool × Call) :=
  [(true, .create), (true, .delete 0), (false, .create), (true, .delete 0)]

theorem not_notRecycled_stale : ¬ NotRecycled staleCalls := by
  intro h
  have hlost := h.harmless [(true, .create)] true 0 [(false, .create)] (List.prefix_refl _)
    (by decide +kernel) false ⟨2⟩ (by decide)
    ⟨[(true, .create), (true, .delete 0)], List.prefix_append _ _, by decide +kernel⟩
    (by decide +kernel)
  revert hlost
  decide +kernel

/-- With the newest registry kept. -/
theorem notRecycled_kept :
    NotRecycled [(true, Call.create), (false, .create), (true, .delete 0), (false, .create),
      (true, .delete 0)] := by
  exact (notRecycled_iff _ (by decide)).mpr (by decide +kernel)

end Metrics
end RepoInit
