import CText.CommandLine.Verify
import CText.Proofs.Files.Machine

/-!
# What jobs lead to

A job on a machine changes the files and adds to the output, and ends well or fails. What it leads
to is told step by step: each kind of step has one lemma, and a sequence of steps is told by those
of its parts.
-/

namespace CText.CommandLine

open Machine

/-- The part of the world that a job changes and that is looked at afterwards. -/
structure Scene where
  output : List UInt8
  tree : FileTree

/-- Whatever the clock shows and whatever was noted before, a job that starts on a scene ends with a
result and a scene for which `post` holds. -/
def Leads {α : Type} (x : Job (StateM Machine) α) (s : Scene)
    (post : Except Failure α → Scene → Prop) : Prop :=
  ∀ notes, Runs (x.run.run ⟨s.output, notes⟩) s.tree fun ended tree =>
    post ended.1 ⟨ended.2.output, tree⟩

/-- What a step that may fail leads to, if another step follows that leads to `post`. -/
abbrev Continues {α β : Type} (f : α → Job (StateM Machine) β)
    (post : Except Failure β → Scene → Prop) : Except Failure α → Scene → Prop
  | .ok a, s => Leads (f a) s post
  | .error failure, s => post (.error failure) s

/-- What a step that may fail leads to, if its failure is handled by a step that leads to `post`. -/
abbrev Handled {α : Type} (handle : Failure → Job (StateM Machine) α)
    (post : Except Failure α → Scene → Prop) : Except Failure α → Scene → Prop
  | .ok a, s => post (.ok a) s
  | .error failure, s => Leads (handle failure) s post

section

variable {α β : Type} {x : Job (StateM Machine) α} {f : α → Job (StateM Machine) β} {s : Scene}

theorem Leads.mono {post weaker : Except Failure α → Scene → Prop} (h : Leads x s post)
    (himp : ∀ result s', post result s' → weaker result s') : Leads x s weaker :=
  fun notes => (h notes).mono fun _ _ => himp _ _

theorem leads_pure {a : α} {post : Except Failure α → Scene → Prop} (h : post (.ok a) s) :
    Leads (pure a) s post :=
  fun _ => runs_pure h

theorem leads_throw {failure : Failure} {post : Except Failure α → Scene → Prop}
    (h : post (.error failure) s) : Leads (throw failure) s post :=
  fun _ => runs_pure h

theorem Leads.bind {post : Except Failure β → Scene → Prop} (h : Leads x s (Continues f post)) :
    Leads (x >>= f) s post := by
  intro notes machine hmachine
  have hfirst := h notes machine hmachine
  rcases hrun : machine.run (x.run.run ⟨s.output, notes⟩) with ⟨⟨result, w⟩, machine'⟩
  rw [hrun] at hfirst
  dsimp only [Machine.run] at hrun ⊢
  simp only [ExceptT.run_bind, StateT.run_bind, hrun]
  cases result with
  | error failure => exact hfirst
  | ok a => exact hfirst w.notes machine' rfl

theorem Leads.map {g : α → β} {post : Except Failure β → Scene → Prop}
    (h : Leads x s fun result => post (result.map g)) : Leads (g <$> x) s post := by
  rw [map_eq_pure_bind]
  refine Leads.bind (h.mono ?_)
  rintro (failure | a) s' hpost
  · exact hpost
  · exact leads_pure hpost

theorem Leads.tryCatch {handle : Failure → Job (StateM Machine) α}
    {post : Except Failure α → Scene → Prop} (h : Leads x s (Handled handle post)) :
    Leads (tryCatch x handle) s post := by
  intro notes machine hmachine
  have hfirst := h notes machine hmachine
  rcases hrun : machine.run (x.run.run ⟨s.output, notes⟩) with ⟨⟨result, w⟩, machine'⟩
  rw [hrun] at hfirst
  dsimp only [Machine.run] at hrun ⊢
  dsimp only [ExceptT.run] at hrun
  simp only [MonadExcept.tryCatch, tryCatchThe, MonadExceptOf.tryCatch, ExceptT.tryCatch,
    ExceptT.run_mk, StateT.run_bind, hrun]
  cases result with
  | error failure => exact hfirst w.notes machine' rfl
  | ok a => exact hfirst

theorem leads_act {x : StateM Machine α} {post : Except Failure α → Scene → Prop}
    (h : Runs x s.tree fun a tree => post (.ok a) { s with tree := tree }) :
    Leads (Job.act x) s post :=
  fun _ machine hmachine => h machine hmachine

theorem leads_note {line : String} {post : Except Failure Unit → Scene → Prop}
    (h : post (.ok ()) s) : Leads (Job.note line) s post :=
  fun _ => runs_pure h

theorem leads_print {text : String} {post : Except Failure Unit → Scene → Prop}
    (h : post (.ok ()) { s with output := s.output ++ Utf8.bytes text }) :
    Leads (Job.print text) s post :=
  fun _ => runs_pure h

theorem leads_withFiles {x : StateM Machine (Except FileFault α)}
    {post : Except Failure α → Scene → Prop}
    (h : Runs x s.tree fun result tree =>
      ∃ a, result = .ok a ∧ post (.ok a) { s with tree := tree }) :
    Leads (Job.withFiles x) s post := by
  refine Leads.bind (leads_act (h.mono ?_))
  rintro _ tree ⟨a, rfl, hpost⟩
  exact leads_pure hpost

def exitStatus : Except Failure Nat → Nat
  | .ok status => status
  | .error failure => failure.status

theorem runs_answer {task : Job (StateM Machine) Nat} {t : FileTree}
    {post : Except Failure Nat → Scene → Prop} (h : Leads task ⟨[], t⟩ post) :
    Runs (Job.answer task) t fun answer t' =>
      ∃ result, post result ⟨answer.output, t'⟩ ∧ answer.status = exitStatus result := by
  refine Runs.bind ((h []).mono ?_)
  rintro ⟨failure | status, w⟩ tree hpost
  · exact runs_pure ⟨_, hpost, rfl⟩
  · exact runs_pure ⟨_, hpost, rfl⟩

end

end CText.CommandLine
