/-
# Objects, threads and scopes

A program constructs and destroys objects and starts and joins threads that use
objects. Its threads run between the operations of the main thread in any order:
no thread ever uses an object that is gone, in any schedule, if and only if the
operations alone are `Sound` (`safe_iff_sound`), and a write of the main thread
never meets a use of a thread if and only if they are `Quiet`
(`raceFree_iff_quiet`). Objects with their threads in nested scopes, left by a
return from anywhere, are sound as soon as every thread uses objects around it
(`Block.nested_sound`), also if an object that no thread uses goes before.

Key definitions: `Lifetimes.Op`, `Lifetimes.Schedule`, `Lifetimes.Safe`,
`Lifetimes.Sound`, `Lifetimes.Quiet`, `Lifetimes.Block`, `Lifetimes.Block.Nested`,
`Lifetimes.Block.Reaches`.
Key theorems: `Lifetimes.safe_iff_sound`, `Lifetimes.raceFree_iff_quiet`,
`Lifetimes.Block.nested_sound`.
-/
import Mathlib.Data.List.Basic
import Mathlib.Tactic.Common

namespace Lifetimes

/-- An operation of the main thread. -/
inductive Op (ρ ω : Type*) where
  | make (r : ρ)
  | drop (r : ρ)
  /-- The main thread uses an object. -/
  | touch (r : ρ)
  /-- The main thread changes an object without a lock. -/
  | write (r : ρ)
  | spawn (w : ω)
  | join (w : ω)
  deriving DecidableEq, Repr

/-- The objects there are and the threads that run. -/
structure State (ρ ω : Type*) where
  alive : List ρ
  running : List ω

variable {ρ ω ε : Type*} [DecidableEq ρ] [DecidableEq ω]

def Op.apply : Op ρ ω → State ρ ω → State ρ ω
  | .make r, s => { s with alive := r :: s.alive }
  | .drop r, s => { s with alive := s.alive.filter (· ≠ r) }
  | .touch _, s => s
  | .write _, s => s
  | .spawn w, s => { s with running := w :: s.running }
  | .join w, s => { s with running := s.running.filter (· ≠ w) }

/-- The state after the operations. -/
def after (s : State ρ ω) (p : List (Op ρ ω)) : State ρ ω := p.foldl (fun s o => o.apply s) s

@[simp] theorem after_nil (s : State ρ ω) : after s [] = s := rfl

@[simp] theorem after_cons (s : State ρ ω) (o : Op ρ ω) (p : List (Op ρ ω)) :
    after s (o :: p) = after (o.apply s) p := rfl

theorem after_append (s : State ρ ω) (p q : List (Op ρ ω)) :
    after s (p ++ q) = after (after s p) q := by
  simp [after]

/-- The main thread needs the object of the operation. -/
def Op.Fine (s : State ρ ω) : Op ρ ω → Prop
  | .drop r => r ∈ s.alive
  | .touch r => r ∈ s.alive
  | .write r => r ∈ s.alive
  | _ => True

instance (s : State ρ ω) (o : Op ρ ω) : Decidable (o.Fine s) := by
  cases o <;> unfold Op.Fine <;> infer_instance

/-! ### Schedules -/

inductive Event (ρ ω : Type*) where
  | main (o : Op ρ ω)
  | use (w : ω) (r : ρ)

section Uses

-- what a thread may use while it runs
variable (uses : ω → List ρ)

/-- The main thread does its operations up to some point, and threads that run
use their objects in between. -/
inductive Schedule : State ρ ω → List (Op ρ ω) → List (Event ρ ω) → Prop
  | stop (s : State ρ ω) (p : List (Op ρ ω)) : Schedule s p []
  | main {s : State ρ ω} {o : Op ρ ω} {p : List (Op ρ ω)} {es : List (Event ρ ω)}
      (h : Schedule (o.apply s) p es) : Schedule s (o :: p) (.main o :: es)
  | use {s : State ρ ω} {p : List (Op ρ ω)} {es : List (Event ρ ω)} {w : ω} {r : ρ}
      (hw : w ∈ s.running) (hr : r ∈ uses w) (h : Schedule s p es) : Schedule s p (.use w r :: es)

/-- Nothing is used that is not there. -/
def Safe : State ρ ω → List (Event ρ ω) → Prop
  | _, [] => True
  | s, .main o :: es => o.Fine s ∧ Safe (o.apply s) es
  | s, .use _ r :: es => r ∈ s.alive ∧ Safe s es

/-- The running threads find what they use. -/
def Covered (s : State ρ ω) : Prop := ∀ w ∈ s.running, ∀ r ∈ uses w, r ∈ s.alive

instance (s : State ρ ω) : Decidable (Covered uses s) :=
  inferInstanceAs (Decidable (∀ w ∈ _, ∀ r ∈ _, _))

/-- They do so before and after every operation. -/
def Sound : State ρ ω → List (Op ρ ω) → Prop
  | s, [] => Covered uses s
  | s, o :: p => Covered uses s ∧ o.Fine s ∧ Sound (o.apply s) p

instance decidableSound : (s : State ρ ω) → (p : List (Op ρ ω)) → Decidable (Sound uses s p)
  | s, [] => inferInstanceAs (Decidable (Covered uses s))
  | s, o :: p =>
    have := decidableSound (o.apply s) p
    inferInstanceAs (Decidable (_ ∧ _ ∧ _))

variable {uses}

theorem Sound.covered {s : State ρ ω} {p : List (Op ρ ω)} (h : Sound uses s p) : Covered uses s := by
  cases p with
  | nil => exact h
  | cons o p => exact h.1

theorem Sound.last {s : State ρ ω} {p : List (Op ρ ω)} (h : Sound uses s p) :
    Covered uses (after s p) := by
  induction p generalizing s with
  | nil => exact h
  | cons o p ih => exact ih h.2.2

/-- **Every schedule is safe if and only if the operations are sound.** -/
theorem safe_iff_sound {s : State ρ ω} {p : List (Op ρ ω)} :
    (∀ es, Schedule uses s p es → Safe s es) ↔ Sound uses s p := by
  constructor
  · intro h
    induction p generalizing s with
    | nil => exact fun w hw r hr => (h _ (.use hw hr (.stop s []))).1
    | cons o p ih =>
      refine ⟨fun w hw r hr => (h _ (.use hw hr (.stop s _))).1, (h _ (.main (.stop _ p))).1, ?_⟩
      exact ih fun es hes => (h _ (.main hes)).2
  · intro h es hes
    induction hes with
    | stop => trivial
    | main _ ih => exact ⟨h.2.1, ih h.2.2⟩
    | use hw hr _ ih => exact ⟨h.covered _ hw _ hr, ih h⟩

theorem sound_append {s : State ρ ω} {p q : List (Op ρ ω)} :
    Sound uses s (p ++ q) ↔ Sound uses s p ∧ Sound uses (after s p) q := by
  induction p generalizing s with
  | nil => exact ⟨fun h => ⟨h.covered, h⟩, fun h => h.2⟩
  | cons o p ih =>
    simp only [List.cons_append, Sound, ih, after_cons]
    tauto

/-! ### Races -/

variable (uses) in
/-- A thread's use of an object stands next to a write of the main thread. -/
def Races (s : State ρ ω) (p : List (Op ρ ω)) : Prop :=
  ∃ es w r, Schedule uses s p (es ++ [.use w r, .main (.write r)])

variable (uses) in
/-- No thread that runs uses what the main thread writes. -/
def Quiet : State ρ ω → List (Op ρ ω) → Prop
  | _, [] => True
  | s, o :: p => (∀ r, o = .write r → ∀ w ∈ s.running, r ∉ uses w) ∧ Quiet (o.apply s) p

@[simp] theorem quiet_nil (s : State ρ ω) : Quiet uses s [] := trivial

theorem quiet_append {s : State ρ ω} {p q : List (Op ρ ω)} :
    Quiet uses s (p ++ q) ↔ Quiet uses s p ∧ Quiet uses (after s p) q := by
  induction p generalizing s with
  | nil => simp [Quiet]
  | cons o p ih => simp only [List.cons_append, Quiet, ih, after_cons, and_assoc]

theorem quiet_of_no_write {s : State ρ ω} {p : List (Op ρ ω)} (h : ∀ r, .write r ∉ p) :
    Quiet uses s p := by
  induction p generalizing s with
  | nil => trivial
  | cons o p ih =>
    refine ⟨fun r hr => absurd (hr ▸ List.mem_cons_self) (h r), ih fun r hr => ?_⟩
    exact h r (List.mem_cons_of_mem _ hr)

/-- A thread uses what it may. -/
theorem Schedule.mem_uses {s : State ρ ω} {p : List (Op ρ ω)} {es : List (Event ρ ω)}
    (h : Schedule uses s p es) {w : ω} {r : ρ} (hm : .use w r ∈ es) : r ∈ uses w := by
  induction h with
  | stop => cases hm
  | main _ ih =>
    obtain hm | hm := List.mem_cons.mp hm
    · cases hm
    · exact ih hm
  | use _ hr _ ih =>
    obtain hm | hm := List.mem_cons.mp hm
    · cases hm
      exact hr
    · exact ih hm

/-- Operations that are quiet for some uses do not write next to one of these,
whatever else the threads use. -/
theorem Quiet.not_mem {uses' : ω → List ρ} {s : State ρ ω} {p : List (Op ρ ω)}
    (h : Quiet uses' s p) {es : List (Event ρ ω)} {w : ω} {r : ρ}
    (hes : Schedule uses s p (es ++ [.use w r, .main (.write r)])) : r ∉ uses' w := by
  generalize hall : es ++ [Event.use w r, .main (.write r)] = all at hes
  induction hes generalizing es with
  | stop => simp at hall
  | @main s o p rest _ ih =>
    cases es with
    | nil => cases hall
    | cons e es =>
      obtain ⟨-, hall⟩ := List.cons.inj hall
      exact ih h.2 hall
  | @use s p rest w' r' hw hr hrest ih =>
    cases es with
    | nil =>
      obtain ⟨he, hall⟩ := List.cons.inj hall
      cases he
      cases hall
      cases hrest with
      | main _ => exact h.1 r rfl w hw
    | cons e es =>
      obtain ⟨-, hall⟩ := List.cons.inj hall
      exact ih h hall

/-- **No schedule has a race if and only if the operations are quiet.** -/
theorem raceFree_iff_quiet {s : State ρ ω} {p : List (Op ρ ω)} : ¬ Races uses s p ↔ Quiet uses s p := by
  constructor
  · intro h
    induction p generalizing s with
    | nil => trivial
    | cons o p ih =>
      refine ⟨?_, ih fun ⟨es, w, r, hes⟩ => h ⟨.main o :: es, w, r, .main hes⟩⟩
      rintro r rfl w hw hr
      exact h ⟨[], w, r, .use hw hr (.main (.stop _ p))⟩
  · rintro h ⟨es, w, r, hes⟩
    exact h.not_mem hes (hes.mem_uses (by simp))

end Uses

/-! ### Scopes -/

/-- A function body: an operation, an object of the scope with the threads it
starts and what its destructor uses after joining them, or the way out. -/
inductive Block (ρ ω ε : Type*) where
  | exit (e : ε)
  | op (o : Op ρ ω) (next : Block ρ ω ε)
  /-- Another owner holds a `held` object, which is not destroyed here. -/
  | scope (r : ρ) (ws : List ω) (closing : List ρ) (held : Bool) (body : Block ρ ω ε)

namespace Block

/-- The way out that is taken. -/
def result : Block ρ ω ε → ε
  | .exit e => e
  | .op _ next => next.result
  | .scope _ _ _ _ body => body.result

/-- The end of a scope that is left by a return. -/
def leave (r : ρ) (ws : List ω) (closing : List ρ) : List (Op ρ ω) :=
  ws.map .join ++ (closing.map .touch ++ [.drop r])

-- `unwinds` tells the ways out that destroy what the scopes hold
variable (unwinds : ε → Bool)

/-- The operations of a block, with the ends of the scopes it leaves. -/
def ops : Block ρ ω ε → List (Op ρ ω)
  | .exit _ => []
  | .op o next => o :: next.ops
  | .scope r ws closing held body =>
    .make r :: (ws.map .spawn ++ (body.ops ++
      if unwinds body.result && !held then leave r ws closing else []))

/-- Every scope destroys its object, and its threads and its destructor use
objects around it and no `free` one; operations do not start threads, and destroy
`free` objects only. -/
def Nested (uses : ω → List ρ) (free : List ρ) : List ρ → Block ρ ω ε → Prop
  | _, .exit _ => True
  | objs, .op (.touch r) next => (r ∈ objs ∧ r ∉ free) ∧ Nested uses free objs next
  | objs, .op (.write r) next => (r ∈ objs ∧ r ∉ free) ∧ Nested uses free objs next
  | objs, .op (.drop r) next => (r ∈ objs ∧ r ∈ free) ∧ Nested uses free (objs.filter (· ≠ r)) next
  | objs, .op (.make r) next => r ∉ objs ∧ Nested uses free (r :: objs) next
  | _, .op _ _ => False
  | objs, .scope r ws closing held body =>
    (held = false ∧ r ∉ objs ∧ r ∉ free) ∧
      (∀ w ∈ ws, ∀ x ∈ uses w, x ∈ r :: objs ∧ x ∉ free) ∧
      (∀ x ∈ closing, x ∈ r :: objs ∧ x ∉ free) ∧ Nested uses free (r :: objs) body

instance decidableNested (uses : ω → List ρ) (free : List ρ) :
    (objs : List ρ) → (b : Block ρ ω ε) → Decidable (Nested uses free objs b)
  | _, .exit _ => inferInstanceAs (Decidable True)
  | objs, .op (.touch _) next =>
    have := decidableNested uses free objs next
    inferInstanceAs (Decidable ((_ ∧ _) ∧ _))
  | objs, .op (.write _) next =>
    have := decidableNested uses free objs next
    inferInstanceAs (Decidable ((_ ∧ _) ∧ _))
  | objs, .op (.drop r) next =>
    have := decidableNested uses free (objs.filter (· ≠ r)) next
    inferInstanceAs (Decidable ((_ ∧ _) ∧ _))
  | objs, .op (.make r) next =>
    have := decidableNested uses free (r :: objs) next
    inferInstanceAs (Decidable (_ ∧ _))
  | _, .op (.spawn _) _ => inferInstanceAs (Decidable False)
  | _, .op (.join _) _ => inferInstanceAs (Decidable False)
  | objs, .scope r _ _ _ body =>
    have := decidableNested uses free (r :: objs) body
    inferInstanceAs (Decidable ((_ ∧ _ ∧ _) ∧ _ ∧ _ ∧ _))

/-! ### The scope rule -/

variable {uses : ω → List ρ}

omit [DecidableEq ρ] [DecidableEq ω] in
theorem covered_of_subset {s s' : State ρ ω} (h : Covered uses s) (hw : ∀ w ∈ s'.running, w ∈ s.running)
    (hr : ∀ r ∈ s.alive, r ∈ s'.alive) : Covered uses s' :=
  fun w hm r hu => hr r (h w (hw w hm) r hu)

theorem after_spawns (s : State ρ ω) (ws : List ω) :
    after s (ws.map .spawn) = { s with running := ws.reverse ++ s.running } := by
  induction ws generalizing s with
  | nil => rfl
  | cons w ws ih => simp [ih, Op.apply]

/-- The first threads are covered where all are. -/
theorem sound_spawns {s : State ρ ω} {ws : List ω} (h : Covered uses (after s (ws.map .spawn))) :
    Sound uses s (ws.map .spawn) := by
  induction ws generalizing s with
  | nil => exact h
  | cons w ws ih =>
    refine ⟨?_, trivial, ih h⟩
    rw [after_spawns] at h
    exact covered_of_subset h (fun w' hw => by simp [hw]) fun r hr => hr

theorem after_joins (s : State ρ ω) (ws : List ω) :
    after s (ws.map .join) = { s with running := s.running.filter (· ∉ ws) } := by
  induction ws generalizing s with
  | nil => simp
  | cons w ws ih =>
    simp only [List.map_cons, after_cons, ih, Op.apply, List.filter_filter]
    congr 2
    funext x
    simp [Bool.and_comm]

theorem sound_joins {s : State ρ ω} {ws : List ω} (h : Covered uses s) :
    Sound uses s (ws.map .join) := by
  induction ws generalizing s with
  | nil => exact h
  | cons w ws ih =>
    refine ⟨h, trivial, ih (covered_of_subset h ?_ fun r hr => hr)⟩
    exact fun w' hw => (List.mem_filter.mp hw).1

theorem after_touches (s : State ρ ω) (rs : List ρ) : after s (rs.map .touch) = s := by
  induction rs with
  | nil => rfl
  | cons r rs ih => exact ih

theorem sound_touches {s : State ρ ω} {rs : List ρ} (h : Covered uses s) (hrs : ∀ r ∈ rs, r ∈ s.alive) :
    Sound uses s (rs.map .touch) := by
  induction rs with
  | nil => exact h
  | cons r rs ih =>
    exact ⟨h, hrs r List.mem_cons_self, ih fun x hx => hrs x (List.mem_cons_of_mem _ hx)⟩

/-- The objects `objs` are there, and the threads use those of them that are not
`free`. -/
structure Around (uses : ω → List ρ) (free objs : List ρ) (s : State ρ ω) : Prop where
  alive : ∀ r ∈ objs, r ∈ s.alive
  running : ∀ w ∈ s.running, ∀ r ∈ uses w, r ∈ objs ∧ r ∉ free

omit [DecidableEq ρ] [DecidableEq ω] in
theorem Around.covered {free objs : List ρ} {s : State ρ ω} (h : Around uses free objs s) :
    Covered uses s := fun w hw r hr => h.alive r (h.running w hw r hr).1

theorem Around.make {free objs : List ρ} {s : State ρ ω} (h : Around uses free objs s) (r : ρ) :
    Around uses free (r :: objs) ((Op.make r : Op ρ ω).apply s) := by
  refine ⟨fun x hx => ?_, fun w hw x hx => ?_⟩
  · rcases List.mem_cons.mp hx with rfl | hx
    · exact List.mem_cons_self
    · exact List.mem_cons_of_mem _ (h.alive x hx)
  · obtain ⟨hobjs, hxfree⟩ := h.running w hw x hx
    exact ⟨List.mem_cons_of_mem _ hobjs, hxfree⟩

theorem Around.drop {free objs : List ρ} {s : State ρ ω} (h : Around uses free objs s) {r : ρ}
    (hfree : r ∈ free) :
    Around uses free (objs.filter (· ≠ r)) ((Op.drop r : Op ρ ω).apply s) := by
  refine ⟨fun x hx => ?_, fun w hw x hx => ?_⟩
  · obtain ⟨hx, hne⟩ := List.mem_filter.mp hx
    exact List.mem_filter.mpr ⟨h.alive x hx, hne⟩
  · obtain ⟨hobjs, hxfree⟩ := h.running w hw x hx
    have hne : x ≠ r := fun he => hxfree (he ▸ hfree)
    exact ⟨List.mem_filter.mpr ⟨hobjs, by simpa using hne⟩, hxfree⟩

theorem Around.spawns {free objs : List ρ} {s : State ρ ω} (h : Around uses free objs s) {ws : List ω}
    (hws : ∀ w ∈ ws, ∀ r ∈ uses w, r ∈ objs ∧ r ∉ free) :
    Around uses free objs (after s (ws.map .spawn)) := by
  rw [after_spawns]
  refine ⟨h.alive, fun w hw => ?_⟩
  rcases List.mem_append.mp hw with hw | hw
  · exact hws w (List.mem_reverse.mp hw)
  · exact h.running w hw

/-- What a block leaves behind: the objects around it that are not `free`, and on
a return no thread more. -/
structure Leaves (unwinds : Bool) (free objs : List ρ) (s t : State ρ ω) : Prop where
  alive : ∀ r ∈ objs, r ∉ free → r ∈ t.alive
  running : unwinds = true → ∀ w ∈ t.running, w ∈ s.running

/-- The end of a scope whose body left what the scope has. -/
theorem sound_leave {free objs : List ρ} {s t : State ρ ω} (hs : Around uses free objs s) {r : ρ}
    {ws : List ω} {closing : List ρ} (hr : r ∉ objs) (hfree : r ∉ free)
    (hclosing : ∀ x ∈ closing, x ∈ r :: objs ∧ x ∉ free) (ht : Covered uses t)
    (halive : ∀ x ∈ r :: objs, x ∉ free → x ∈ t.alive)
    (hrunning : ∀ w ∈ t.running, w ∈ ws.reverse ++ s.running) :
    Sound uses t (leave r ws closing) ∧ Leaves true free objs s (after t (leave r ws closing)) := by
  have hleft : ∀ w ∈ t.running.filter (· ∉ ws), w ∈ s.running := by
    intro w hw
    obtain ⟨hw, hno⟩ := List.mem_filter.mp hw
    have hno : w ∉ ws := by simpa using hno
    exact (List.mem_append.mp (hrunning w hw)).resolve_left fun hm => hno (List.mem_reverse.mp hm)
  have hkept : ∀ x ∈ objs, x ∉ free → x ∈ t.alive.filter (· ≠ r) := by
    intro x hx hxfree
    refine List.mem_filter.mpr ⟨halive x (List.mem_cons_of_mem _ hx) hxfree, ?_⟩
    simpa using fun he : x = r => hr (he ▸ hx)
  have hjoined : Covered uses (after t (ws.map .join)) := by
    rw [after_joins]
    exact covered_of_subset ht (fun w hw => (List.mem_filter.mp hw).1) fun x hx => hx
  have hafter : after t (leave r ws closing) =
      { alive := t.alive.filter (· ≠ r), running := t.running.filter (· ∉ ws) } := by
    rw [leave, after_append, after_append, after_touches, after_joins]
    rfl
  refine ⟨?_, ?_⟩
  · rw [leave, sound_append, sound_append, after_touches]
    refine ⟨sound_joins ht, sound_touches hjoined ?_, hjoined, ?_, ?_⟩
    · rw [after_joins]
      exact fun x hx => halive x (hclosing x hx).1 (hclosing x hx).2
    · rw [after_joins]
      exact halive r List.mem_cons_self hfree
    · rw [after_joins]
      intro w hw x hx
      obtain ⟨hobjs, hxfree⟩ := hs.running w (hleft w hw) x hx
      exact hkept x hobjs hxfree
  · rw [hafter]
    exact ⟨hkept, fun _ => hleft⟩

/-- **Nested scopes are sound**, left by any return or not left at all. -/
theorem nested_sound {free objs : List ρ} {b : Block ρ ω ε} (hb : b.Nested uses free objs)
    {s : State ρ ω} (hs : Around uses free objs s) :
    Sound uses s (b.ops unwinds) ∧
      Leaves (unwinds b.result) free objs s (after s (b.ops unwinds)) := by
  induction b generalizing objs s with
  | exit e => exact ⟨hs.covered, fun r hr _ => hs.alive r hr, fun _ w hw => hw⟩
  | op o next ih =>
    cases o with
    | make r =>
      obtain ⟨hsound, hleaves⟩ := ih hb.2 (hs.make r)
      exact ⟨⟨hs.covered, trivial, hsound⟩,
        ⟨fun x hx => hleaves.alive x (List.mem_cons_of_mem _ hx), hleaves.running⟩⟩
    | drop r =>
      obtain ⟨⟨hr, hfree⟩, hnext⟩ := hb
      obtain ⟨hsound, hleaves⟩ := ih hnext (hs.drop hfree)
      refine ⟨⟨hs.covered, hs.alive r hr, hsound⟩, ⟨fun x hx hxfree => ?_, hleaves.running⟩⟩
      have hne : x ≠ r := fun he => hxfree (he ▸ hfree)
      exact hleaves.alive x (List.mem_filter.mpr ⟨hx, by simpa using hne⟩) hxfree
    | touch r =>
      obtain ⟨hsound, hleaves⟩ := ih hb.2 hs
      exact ⟨⟨hs.covered, hs.alive r hb.1.1, hsound⟩, hleaves⟩
    | write r =>
      obtain ⟨hsound, hleaves⟩ := ih hb.2 hs
      exact ⟨⟨hs.covered, hs.alive r hb.1.1, hsound⟩, hleaves⟩
    | spawn w => exact hb.elim
    | join w => exact hb.elim
  | scope r ws closing held body ih =>
    obtain ⟨⟨rfl, hr, hfree⟩, hws, hclosing, hbody⟩ := hb
    set s₁ := after ((Op.make r : Op ρ ω).apply s) (ws.map .spawn) with hs₁
    have hentered : s₁ = { alive := r :: s.alive, running := ws.reverse ++ s.running } := by
      rw [hs₁, after_spawns]
      rfl
    have hinside : Around uses free (r :: objs) s₁ := (hs.make r).spawns hws
    obtain ⟨hsound, hleaves⟩ := ih hbody hinside
    have hspawns : Sound uses ((Op.make r : Op ρ ω).apply s) (ws.map .spawn) :=
      sound_spawns hinside.covered
    have hshape : (Block.scope r ws closing false body).ops unwinds =
        .make r :: (ws.map .spawn ++ (body.ops unwinds ++
          if unwinds body.result then leave r ws closing else [])) := by
      simp [ops]
    rw [hshape, after_cons, after_append, ← hs₁]
    by_cases hu : unwinds body.result = true
    · obtain ⟨hend, hleft⟩ := sound_leave hs hr hfree hclosing hsound.last hleaves.alive
        (by simpa [hentered] using hleaves.running hu)
      rw [if_pos hu, after_append]
      refine ⟨⟨hs.covered, trivial, ?_⟩, ⟨hleft.alive, fun _ => hleft.running rfl⟩⟩
      exact sound_append.mpr ⟨hspawns, sound_append.mpr ⟨hsound, hend⟩⟩
    · rw [if_neg hu, List.append_nil]
      refine ⟨⟨hs.covered, trivial, sound_append.mpr ⟨hspawns, hsound⟩⟩, ?_⟩
      exact ⟨fun x hx => hleaves.alive x (List.mem_cons_of_mem _ hx), fun h => absurd h hu⟩

/-! ### What a block does -/

section Does

variable {unwinds}

omit [DecidableEq ρ] [DecidableEq ω] in
@[simp] theorem spawn_mem_op {o : Op ρ ω} {next : Block ρ ω ε} {w : ω} :
    .spawn w ∈ (Block.op o next).ops unwinds ↔ o = .spawn w ∨ .spawn w ∈ next.ops unwinds := by
  simp only [ops, List.mem_cons, eq_comm]

omit [DecidableEq ρ] [DecidableEq ω] in
/-- A scope starts its threads and those of its body. -/
@[simp] theorem spawn_mem_scope {r : ρ} {ws : List ω} {closing : List ρ} {held : Bool}
    {body : Block ρ ω ε} {w : ω} : .spawn w ∈ (Block.scope r ws closing held body).ops unwinds ↔
      w ∈ ws ∨ .spawn w ∈ body.ops unwinds := by
  have hleave : Op.spawn w ∉ leave r ws closing := by simp [leave]
  simp [ops, hleave]

omit [DecidableEq ρ] [DecidableEq ω] in
@[simp] theorem ops_exit (e : ε) : (Block.exit e : Block ρ ω ε).ops unwinds = [] := rfl

/-- A scope writes nothing by itself. -/
theorem quiet_scope {s : State ρ ω} {r : ρ} {ws : List ω} {closing : List ρ} {held : Bool}
    {body : Block ρ ω ε} : Quiet uses s ((Block.scope r ws closing held body).ops unwinds) ↔
      Quiet uses { alive := r :: s.alive, running := ws.reverse ++ s.running } (body.ops unwinds) := by
  have hend : ∀ x, Op.write x ∉ if unwinds body.result && !held then leave r ws closing else [] := by
    intro x
    split
    · simp [leave]
    · exact List.not_mem_nil
  have hspawns : Quiet uses ((Op.make r : Op ρ ω).apply s) (ws.map .spawn) :=
    quiet_of_no_write (by simp)
  have hbody : after ((Op.make r : Op ρ ω).apply s) (ws.map .spawn) =
      { alive := r :: s.alive, running := ws.reverse ++ s.running } := after_spawns _ ws
  rw [ops, Quiet, quiet_append, hbody, quiet_append]
  constructor
  · exact fun h => h.2.2.1
  · exact fun h => ⟨by simp, hspawns, h, quiet_of_no_write hend⟩

end Does

/-! ### What a block comes to -/

/-- The block comes to `inner` through operations and scopes that do not join
`w`. -/
inductive Reaches (w : ω) (inner : Block ρ ω ε) : Block ρ ω ε → Prop
  | here : Reaches w inner inner
  | op {o : Op ρ ω} {next : Block ρ ω ε} (ho : o ≠ .join w) (h : Reaches w inner next) :
    Reaches w inner (.op o next)
  | scope {r : ρ} {ws : List ω} {closing : List ρ} {held : Bool} {body : Block ρ ω ε} (hw : w ∉ ws)
      (h : Reaches w inner body) : Reaches w inner (.scope r ws closing held body)

section Reaches

variable {unwinds} {w : ω} {inner b : Block ρ ω ε}

omit [DecidableEq ρ] [DecidableEq ω] in
theorem Reaches.result_eq (h : Reaches w inner b) : b.result = inner.result := by
  induction h with
  | here => rfl
  | op _ _ ih => exact ih
  | scope _ _ ih => exact ih

omit [DecidableEq ρ] [DecidableEq ω] in
theorem Reaches.trans {c : Block ρ ω ε} (h : Reaches w c b) (h' : Reaches w inner c) :
    Reaches w inner b := by
  induction h with
  | here => exact h'
  | op ho _ ih => exact .op ho ih
  | scope hw _ ih => exact .scope hw ih

/-- The body of a sound scope is sound where the scope's threads run. -/
theorem sound_body {s : State ρ ω} {r : ρ} {ws : List ω} {closing : List ρ} {held : Bool}
    (h : Sound uses s ((Block.scope r ws closing held b).ops unwinds)) :
    Sound uses { alive := r :: s.alive, running := ws.reverse ++ s.running } (b.ops unwinds) := by
  obtain ⟨-, hrest⟩ := sound_append.mp h.2.2
  rw [after_spawns] at hrest
  exact (sound_append.mp hrest).1

/-- A scope that is left has destroyed its object. -/
theorem not_mem_alive_of_left (s : State ρ ω) (r : ρ) (ws : List ω) (closing : List ρ)
    (hu : unwinds b.result = true) :
    r ∉ (after s ((Block.scope r ws closing false b).ops unwinds)).alive := by
  rw [ops, after_cons, after_append, after_append, hu, leave]
  simp only [Bool.not_false, Bool.and_self, if_true, after_append, after_cons, after_nil]
  exact fun hm => absurd (List.mem_filter.mp hm).2 (by simp)

theorem mem_running_apply {o : Op ρ ω} {s : State ρ ω} (ho : o ≠ .join w) (h : w ∈ s.running) :
    w ∈ (o.apply s).running := by
  cases o with
  | spawn w' => exact List.mem_cons_of_mem _ h
  | join w' =>
    refine List.mem_filter.mpr ⟨h, ?_⟩
    simpa using fun he : w = w' => ho (he ▸ rfl)
  | _ => exact h

theorem mem_running_after {p : List (Op ρ ω)} {s : State ρ ω} (hp : .join w ∉ p)
    (h : w ∈ s.running) : w ∈ (after s p).running := by
  induction p generalizing s with
  | nil => exact h
  | cons o p ih =>
    refine ih (fun hm => hp (List.mem_cons_of_mem _ hm)) (mem_running_apply ?_ h)
    rintro rfl
    exact hp List.mem_cons_self

/-- If the block is sound, so is the inner one where it is reached, and a thread
that ran runs there. -/
theorem Reaches.sound {s : State ρ ω} (h : Reaches w inner b) (hw : w ∈ s.running)
    (hs : Sound uses s (b.ops unwinds)) :
    ∃ s', w ∈ s'.running ∧ Sound uses s' (inner.ops unwinds) := by
  induction h generalizing s with
  | here => exact ⟨s, hw, hs⟩
  | op ho _ ih => exact ih (mem_running_apply ho hw) hs.2.2
  | @scope r ws closing held body hno _ ih =>
    obtain ⟨-, hs⟩ := sound_append.mp hs.2.2
    obtain ⟨hs, -⟩ := sound_append.mp hs
    refine ih ?_ hs
    rw [after_spawns]
    exact List.mem_append_right _ hw

/-- A thread that the inner block leaves running is left running. -/
theorem Reaches.running {s : State ρ ω} (h : Reaches w inner b)
    (hinner : ∀ s', w ∈ (after s' (inner.ops unwinds)).running) :
    w ∈ (after s (b.ops unwinds)).running := by
  induction h generalizing s with
  | here => exact hinner s
  | op _ _ ih => exact ih
  | @scope r ws closing held body hno _ ih =>
    rw [ops, after_cons, after_append, after_append]
    refine mem_running_after ?_ ih
    split
    · simpa [leave] using hno
    · simp

end Reaches

end Block

end Lifetimes
