/-
# `PrometheusServer` and its registries

A registry is found by an id that the next one gets from the last one stored,
plus one; the information registry is stored first under the largest id, so the
first id after it wraps around to zero. Every call holds the lock throughout,
so the calls of any number of clients are a list.

The ids behind the information registry increase (`Ordered`), so they are
distinct and the store is a map (`run_refines`).

Key definitions: `PrometheusServer`, `run`, `latest`, `Ordered`.
Key theorems: `Ordered.nextId_spec`, `run_ordered`, `run_refines`.
-/
import Mathlib.Algebra.GroupWithZero.Nat
import Mathlib.Data.List.Induction
import Mathlib.Data.List.Nodup
import Mathlib.Order.Nat
import RepoInit.Basic

namespace RepoInit
namespace Metrics

/-- A registry object; `object` counts those made before it. -/
structure Registry where
  object : ℕ
  deriving DecidableEq, Repr

/-- `std::numeric_limits<uint64_t>::max()`, the id of the information registry. -/
def infoId : UInt64 := 0xFFFFFFFFFFFFFFFF

/-- The information registry. -/
def infoRegistry : Registry := ⟨0⟩

structure PrometheusServer where
  vRegister : List (UInt64 × Registry)
  /-- Registry objects made so far. -/
  made : ℕ
  /-- What `_mainExposer` was told of. -/
  collectables : List Registry
  infoFirst : ∃ rest, vRegister = (infoId, infoRegistry) :: rest

theorem PrometheusServer.vRegister_ne_nil (srv : PrometheusServer) : srv.vRegister ≠ [] := by
  obtain ⟨rest, h⟩ := srv.infoFirst
  simp [h]

/-- The constructor. -/
def PrometheusServer.new : PrometheusServer where
  vRegister := [(infoId, infoRegistry)]
  made := 1
  collectables := [infoRegistry]
  infoFirst := ⟨[], rfl⟩

/-- `none` for `nullptr`. -/
def getRegistry (regId : UInt64) (srv : PrometheusServer) : Option Registry :=
  (srv.vRegister.find? fun val => regId == val.1).map Prod.snd

/-- The id reported and the registry; without the id it is the other overload. -/
def createNewRegistry (srv : PrometheusServer) : (UInt64 × Registry) × PrometheusServer :=
  let reg : Registry := ⟨srv.made⟩
  let regId := (srv.vRegister.getLast srv.vRegister_ne_nil).1 + 1
  ((regId, reg),
    { vRegister := srv.vRegister ++ [(regId, reg)]
      made := srv.made + 1
      collectables := srv.collectables ++ [reg]
      infoFirst := by
        obtain ⟨rest, h⟩ := srv.infoFirst
        exact ⟨rest ++ [(regId, reg)], by rw [h, List.cons_append]⟩ })

def deleteRegistry (regId : UInt64) (srv : PrometheusServer) : Bool × PrometheusServer :=
  if hmax : regId = infoId then (false, srv)
  else
    (true, { srv with
      vRegister := srv.vRegister.filter fun val => !(regId == val.1)
      infoFirst := by
        obtain ⟨rest, h⟩ := srv.infoFirst
        exact ⟨rest.filter fun val => !(regId == val.1), by simp [h, hmax]⟩ })

/-! ### Runs -/

inductive Call where
  | get (regId : UInt64)
  | create
  | delete (regId : UInt64)
  deriving DecidableEq, Repr

def Call.apply (srv : PrometheusServer) : Call → PrometheusServer
  | .get _ => srv
  | .create => (createNewRegistry srv).2
  | .delete regId => (deleteRegistry regId srv).2

/-- What a caller was told: a registry is stored under an id, or no longer. -/
inductive Report where
  | created (regId : UInt64) (reg : Registry)
  | deleted (regId : UInt64)
  deriving DecidableEq, Repr

def Call.report (srv : PrometheusServer) : Call → List Report
  | .get _ => []
  | .create => [.created (createNewRegistry srv).1.1 (createNewRegistry srv).1.2]
  | .delete regId => if (deleteRegistry regId srv).1 then [.deleted regId] else []

/-- The server after a list of calls. -/
def run (calls : List Call) : PrometheusServer := calls.foldl Call.apply .new

/-- What its callers were told, newest first. -/
def reports (calls : List Call) : List Report :=
  (calls.foldl (fun p call => (call.apply p.1, call.report p.1 ++ p.2))
    (PrometheusServer.new, [])).2

/-- The registry of the latest creation that reported an id, if the id was not
deleted since. -/
def latest : List Report → UInt64 → Option Registry
  | [], regId => if regId = infoId then some infoRegistry else none
  | .created regId' reg :: h, regId => if regId = regId' then some reg else latest h regId
  | .deleted regId' :: h, regId => if regId = regId' then none else latest h regId

def creations (calls : List Call) : ℕ := calls.count .create

theorem run_concat (calls : List Call) (call : Call) :
    run (calls ++ [call]) = call.apply (run calls) := by
  simp [run]

theorem foldl_reports (calls : List Call) :
    calls.foldl (fun p call => (call.apply p.1, call.report p.1 ++ p.2))
      (PrometheusServer.new, []) = (run calls, reports calls) := by
  refine Prod.ext ?_ rfl
  induction calls using List.reverseRecOn with
  | nil => rfl
  | append_singleton calls call ih =>
    rw [run_concat, List.foldl_append, List.foldl_cons, List.foldl_nil]
    exact congrArg call.apply ih

theorem reports_concat (calls : List Call) (call : Call) :
    reports (calls ++ [call]) = call.report (run calls) ++ reports calls := by
  conv_lhs => rw [reports, List.foldl_append, foldl_reports]
  rfl

theorem creations_concat (calls : List Call) (call : Call) :
    creations (calls ++ [call]) = creations calls + if call = .create then 1 else 0 := by
  simp only [creations, List.count_append, List.count_singleton, beq_iff_eq]

theorem made_run (calls : List Call) : (run calls).made = creations calls + 1 := by
  induction calls using List.reverseRecOn with
  | nil => rfl
  | append_singleton calls call ih =>
    rw [run_concat, creations_concat]
    cases call with
    | get regId => simpa [Call.apply] using ih
    | create => simp [Call.apply, createNewRegistry, ih]
    | delete regId =>
      simp only [Call.apply, deleteRegistry]
      split <;> simpa using ih

/-! ### The order of the ids -/

/-- The ids and the objects behind the information registry increase, no id is
ahead of its object, and every object was made. -/
structure Ordered (srv : PrometheusServer) (rest : List (UInt64 × Registry)) : Prop where
  register : srv.vRegister = (infoId, infoRegistry) :: rest
  increasing : rest.Pairwise fun a b => a.1.toNat < b.1.toNat ∧ a.2.object < b.2.object
  behind : ∀ a ∈ rest, a.1.toNat + 1 ≤ a.2.object
  made : ∀ a ∈ rest, a.2.object < srv.made
  some : 0 < srv.made

theorem ordered_new : Ordered .new [] :=
  ⟨rfl, List.Pairwise.nil, by simp, by simp, Nat.zero_lt_one⟩

section OrderedFacts

variable {srv : PrometheusServer} {rest : List (UInt64 × Registry)}

theorem Ordered.ne_info (h : Ordered srv rest) (hn : srv.made < 2 ^ 64) :
    ∀ a ∈ rest, a.1 ≠ infoId := by
  intro a ha heq
  have hlt : a.1.toNat + 1 < 2 ^ 64 :=
    calc a.1.toNat + 1 ≤ a.2.object := h.behind a ha
      _ < srv.made := h.made a ha
      _ < 2 ^ 64 := hn
  rw [heq] at hlt
  revert hlt
  decide

theorem Ordered.nodup (h : Ordered srv rest) (hn : srv.made < 2 ^ 64) :
    (srv.vRegister.map Prod.fst).Nodup := by
  rw [h.register, List.map_cons, List.nodup_cons]
  constructor
  · intro hm
    obtain ⟨a, ha, heq⟩ := List.mem_map.mp hm
    exact h.ne_info hn a ha heq
  · rw [List.Nodup, List.pairwise_map]
    exact h.increasing.imp fun hab heq => by
      rw [heq] at hab
      exact lt_irrefl _ hab.1

/-- The next id is zero behind the information registry, and otherwise one more
than the last id. -/
theorem Ordered.nextId (h : Ordered srv rest) :
    (rest = [] ∧ (createNewRegistry srv).1.1 = 0) ∨
      ∃ init a, rest = init ++ [a] ∧ (createNewRegistry srv).1.1 = a.1 + 1 := by
  rcases List.eq_nil_or_concat rest with rfl | ⟨init, a, rfl⟩
  · left
    refine ⟨rfl, ?_⟩
    simp only [createNewRegistry, h.register, List.getLast_singleton]
    decide
  · right
    refine ⟨init, a, List.concat_eq_append, ?_⟩
    simp [createNewRegistry, h.register]

/-- No wrap-around behind the information registry. -/
theorem Ordered.toNat_succ (h : Ordered srv rest) (hn : srv.made < 2 ^ 64) {a : UInt64 × Registry}
    (ha : a ∈ rest) : (a.1 + 1).toNat = a.1.toNat + 1 := by
  have hb := h.behind a ha
  have hm := h.made a ha
  rw [UInt64.toNat_add]
  show (a.1.toNat + 1) % 2 ^ 64 = _
  omega

/-- The next id is above all others and not ahead of its object. -/
theorem Ordered.nextId_spec (h : Ordered srv rest) (hn : srv.made < 2 ^ 64) :
    (∀ a ∈ rest, a.1.toNat < (createNewRegistry srv).1.1.toNat) ∧
      (createNewRegistry srv).1.1.toNat + 1 ≤ srv.made := by
  rcases h.nextId with ⟨rfl, hid⟩ | ⟨init, a, rfl, hid⟩
  · rw [hid]
    exact ⟨by simp, h.some⟩
  · have ha : a ∈ init ++ [a] := by simp
    have hb := h.behind a ha
    have hm := h.made a ha
    rw [hid, h.toNat_succ hn ha]
    refine ⟨fun b hb => ?_, by omega⟩
    rcases List.mem_append.mp hb with hb | hb
    · have := (List.pairwise_append.mp h.increasing).2.2 b hb a (by simp)
      omega
    · rw [List.mem_singleton.mp hb]
      omega

theorem Ordered.create (h : Ordered srv rest) (hn : srv.made < 2 ^ 64) :
    Ordered (createNewRegistry srv).2 (rest ++ [(createNewRegistry srv).1]) := by
  obtain ⟨habove, hbehind⟩ := h.nextId_spec hn
  refine ⟨?_, ?_, ?_, ?_, Nat.succ_pos _⟩
  · exact (congrArg (· ++ [(createNewRegistry srv).1]) h.register).trans (List.cons_append ..)
  · rw [List.pairwise_append]
    refine ⟨h.increasing, List.pairwise_singleton _ _, fun a ha b hb => ?_⟩
    rw [List.mem_singleton.mp hb]
    exact ⟨habove a ha, h.made a ha⟩
  · intro a ha
    rcases List.mem_append.mp ha with ha | ha
    · exact h.behind a ha
    · rw [List.mem_singleton.mp ha]
      exact hbehind
  · intro a ha
    show a.2.object < srv.made + 1
    rcases List.mem_append.mp ha with ha | ha
    · exact (h.made a ha).trans (Nat.lt_succ_self _)
    · rw [List.mem_singleton.mp ha]
      exact Nat.lt_succ_self _

theorem Ordered.delete (h : Ordered srv rest) {regId : UInt64} (hid : regId ≠ infoId) :
    Ordered (deleteRegistry regId srv).2 (rest.filter fun val => !(regId == val.1)) := by
  have hsub := List.filter_sublist (p := fun val : UInt64 × Registry => !(regId == val.1)) (l := rest)
  have hsrv : (deleteRegistry regId srv).2.made = srv.made := by
    simp [deleteRegistry, hid]
  refine ⟨?_, h.increasing.sublist hsub, fun a ha => h.behind a (hsub.subset ha), fun a ha => ?_, ?_⟩
  · simp [deleteRegistry, hid, h.register]
  · rw [hsrv]
    exact h.made a (hsub.subset ha)
  · rw [hsrv]
    exact h.some

theorem deleteRegistry_info (srv : PrometheusServer) :
    deleteRegistry infoId srv = (false, srv) := by
  simp [deleteRegistry]

end OrderedFacts

/-- **Runs keep the order.** -/
theorem run_ordered (calls : List Call) (hn : creations calls < 2 ^ 64 - 1) :
    ∃ rest, Ordered (run calls) rest := by
  induction calls using List.reverseRecOn with
  | nil => exact ⟨[], ordered_new⟩
  | append_singleton calls call ih =>
    rw [creations_concat] at hn
    obtain ⟨rest, h⟩ := ih (by omega)
    rw [run_concat]
    cases call with
    | get regId => exact ⟨rest, h⟩
    | create =>
      rw [if_pos rfl] at hn
      exact ⟨_, h.create (by rw [made_run]; omega)⟩
    | delete regId =>
      by_cases hid : regId = infoId
      · rw [Call.apply, hid, deleteRegistry_info]
        exact ⟨rest, h⟩
      · exact ⟨_, h.delete hid⟩

/-! ### The store is a map -/

theorem getRegistry_create (regId : UInt64) (srv : PrometheusServer) :
    getRegistry regId (createNewRegistry srv).2 =
      (getRegistry regId srv).or
        (if regId = (createNewRegistry srv).1.1 then some (createNewRegistry srv).1.2 else none) := by
  unfold getRegistry
  show ((srv.vRegister ++ [(createNewRegistry srv).1]).find? _).map _ = _
  rw [List.find?_append, List.find?_singleton]
  cases srv.vRegister.find? fun val => regId == val.1 with
  | some val => rfl
  | none =>
    by_cases h : regId = (createNewRegistry srv).1.1
    · simp [h]
    · simp [h]

theorem getRegistry_delete (regId regId' : UInt64) (srv : PrometheusServer) :
    getRegistry regId' (deleteRegistry regId srv).2 =
      if regId' = regId ∧ regId ≠ infoId then none else getRegistry regId' srv := by
  by_cases hid : regId = infoId
  · rw [hid, deleteRegistry_info]
    simp
  · simp only [deleteRegistry, hid, dif_neg, not_false_eq_true, getRegistry, List.find?_filter,
      ne_eq, and_true]
    split
    · rename_i heq
      subst heq
      rw [Option.map_eq_none_iff, List.find?_eq_none]
      simp
    · rename_i hne
      congr 2
      funext val
      by_cases hv : regId' = val.1
      · have hne' : regId ≠ val.1 := fun h => hne (hv.trans h.symm)
        simp [hv, hne']
      · simp [hv]

theorem getRegistry_eq_none {srv : PrometheusServer} {regId : UInt64} :
    getRegistry regId srv = none ↔ ∀ val ∈ srv.vRegister, val.1 ≠ regId := by
  simp only [getRegistry, Option.map_eq_none_iff, List.find?_eq_none, beq_iff_eq]
  exact forall₂_congr fun val _ => ne_comm

/-- The next id is not stored. -/
theorem Ordered.getRegistry_nextId {srv : PrometheusServer} {rest : List (UInt64 × Registry)}
    (h : Ordered srv rest) (hn : srv.made + 1 < 2 ^ 64) :
    getRegistry (createNewRegistry srv).1.1 srv = none := by
  have hnew := (h.create (by omega)).nodup hn
  rw [show (createNewRegistry srv).2.vRegister = srv.vRegister ++ [(createNewRegistry srv).1] from rfl,
    List.map_append, List.nodup_append] at hnew
  rw [getRegistry_eq_none]
  intro val hval heq
  exact hnew.2.2 _ (List.mem_map_of_mem hval) _ (by simp) heq

/-- What a run keeps: the store is ordered, and its lookups are what callers
were told. -/
theorem run_latest (calls : List Call) (hn : creations calls < 2 ^ 64 - 1) (regId : UInt64) :
    getRegistry regId (run calls) = latest (reports calls) regId := by
  induction calls using List.reverseRecOn with
  | nil =>
    simp only [run, reports, List.foldl_nil, latest, getRegistry, PrometheusServer.new]
    by_cases h : regId = infoId
    · simp [h]
    · simp [h]
  | append_singleton calls call ih =>
    rw [creations_concat] at hn
    have ih := ih (by omega)
    rw [run_concat, reports_concat]
    cases call with
    | get regId' => exact ih
    | create =>
      rw [if_pos rfl] at hn
      obtain ⟨rest, h⟩ := run_ordered calls (by omega)
      have hnone := h.getRegistry_nextId (by rw [made_run]; omega)
      simp only [Call.apply, getRegistry_create, Call.report, List.singleton_append, latest, ← ih]
      split
      · rename_i heq
        rw [heq, hnone]
        rfl
      · rw [Option.or_none]
    | delete regId' =>
      simp only [Call.apply, getRegistry_delete, Call.report]
      by_cases hid : regId' = infoId
      · rw [hid, deleteRegistry_info]
        simp [ih]
      · simp [deleteRegistry, hid, latest, ih]

/-- **The store is a finite map.** After any calls with fewer than `2^64 - 1`
creations the ids are distinct, the information registry is the first, and an
id is looked up to what was last created under it and not deleted since; and a
deletion changes no other lookup. -/
theorem run_refines (calls : List Call) (hn : creations calls < 2 ^ 64 - 1) :
    ((run calls).vRegister.map Prod.fst).Nodup ∧
      (run calls).vRegister.head? = some (infoId, infoRegistry) ∧
      (∀ regId, getRegistry regId (run calls) = latest (reports calls) regId) ∧
      ∀ regId regId', regId' ≠ regId →
        getRegistry regId' (deleteRegistry regId (run calls)).2 = getRegistry regId' (run calls) := by
  obtain ⟨rest, h⟩ := run_ordered calls hn
  refine ⟨h.nodup (by rw [made_run]; omega), by rw [h.register]; rfl, run_latest calls hn, ?_⟩
  intro regId regId' hne
  rw [getRegistry_delete, if_neg fun hd => hne hd.1]

/-- A registry is deleted between two creations, and then the last one. -/
theorem run_refines_deleted :
    getRegistry 0 (run [.create, .create, .delete 0, .create, .delete 2, .create]) = none ∧
      getRegistry 2 (run [.create, .create, .delete 0, .create, .delete 2, .create]) = some ⟨4⟩ := by
  have h := (run_refines [.create, .create, .delete 0, .create, .delete 2, .create] (by decide)).2.2.1
  exact ⟨(h 0).trans (by decide +kernel), (h 2).trans (by decide +kernel)⟩

end Metrics
end RepoInit
