import CText.Proofs.Files.Tree

/-!
# Machines

A machine has a tree of files and a clock. Nothing is known of the times that the clock shows. What
a program comes to on a machine is told by what it does to the tree.
-/

namespace CText

/-- A tree of files, and a clock with the times that it is going to show. -/
structure Machine where
  tree : FileTree
  /-- What the clock shows when it is looked at for the time with this number. -/
  shown : Nat → Nat
  /-- How often the clock has been looked at. -/
  looks : Nat

namespace Machine

def ask {α : Type} (f : FileTree → α) : StateM Machine α := fun s => (f s.tree, s)

def change (f : FileTree → Except FileFault FileTree) : StateM Machine (Except FileFault Unit) :=
  fun s => match f s.tree with
    | .ok tree => (.ok (), { s with tree := tree })
    | .error fault => (.error fault, s)

instance : Files (StateM Machine) where
  read path := ask fun t => t.read path
  create path := change fun t => t.create path
  overwrite path content := change fun t => t.overwrite path content
  list path := ask fun t => t.list path
  isFile path := ask fun t => t.isFile path

instance : Clock (StateM Machine) where
  now s := (s.shown s.looks, { s with looks := s.looks + 1 })

/-- The result of a program on a machine, and the machine afterwards. -/
def run {α : Type} (s : Machine) (x : StateM Machine α) : α × Machine := StateT.run x s

/-- Whatever the clock shows, a program that starts on a tree ends with a result and a tree for
which `post` holds. -/
def Runs {α : Type} (x : StateM Machine α) (t : FileTree) (post : α → FileTree → Prop) : Prop :=
  ∀ s : Machine, s.tree = t → post (s.run x).1 (s.run x).2.tree

section

variable {α β : Type} {x : StateM Machine α} {t : FileTree} {post : α → FileTree → Prop}

theorem runs_pure {a : α} (h : post a t) : Runs (pure a) t post := by
  rintro s rfl
  exact h

theorem Runs.bind {f : α → StateM Machine β} {last : β → FileTree → Prop}
    (h : Runs x t fun a t' => Runs (f a) t' last) : Runs (x >>= f) t last := by
  intro s hs
  exact h s hs _ rfl

theorem Runs.mono {weaker : α → FileTree → Prop} (h : Runs x t post)
    (himp : ∀ a t', post a t' → weaker a t') : Runs x t weaker := by
  intro s hs
  exact himp _ _ (h s hs)

theorem runs_now {post : Nat → FileTree → Prop} (h : ∀ time, post time t) :
    Runs Clock.now t post := by
  rintro s rfl
  exact h _

theorem runs_ask {f : FileTree → α} (h : post (f t) t) : Runs (ask f) t post := by
  rintro s rfl
  exact h

theorem runs_change {f : FileTree → Except FileFault FileTree} {t' : FileTree}
    {post : Except FileFault Unit → FileTree → Prop} (hf : f t = .ok t') (h : post (.ok ()) t') :
    Runs (change f) t post := by
  rintro s rfl
  simp only [run, change, StateT.run]
  rw [hf]
  exact h

end

/-! ## Files -/

section

variable {t : FileTree} {path : String} {content : List UInt8}
  {post : Except FileFault Unit → FileTree → Prop}

theorem runs_create (h : t.Writable path) (hpost : post (.ok ()) (t.store path [])) :
    Runs (Files.create path) t post :=
  runs_change h.create_eq hpost

theorem runs_overwrite (h : t.Writable path) (hempty : t.read path = .ok [])
    (hpost : post (.ok ()) (t.store path content)) : Runs (Files.overwrite path content) t post :=
  runs_change (h.overwrite_eq hempty) hpost

theorem runs_write (h : t.Writable path) (hpost : post (.ok ()) (t.store path content)) :
    Runs (Files.write path content) t post := by
  refine Runs.bind (runs_create h ?_)
  refine runs_overwrite (h.store h) h.read_store ?_
  rw [h.store_store]
  exact hpost

/-- A file that holds the bytes of a text is read as the text. -/
theorem runs_readText {text : String} {post : Except FileFault String → FileTree → Prop}
    {bytes : List UInt8} (hread : t.read path = .ok bytes) (htext : Utf8.text? bytes = some text)
    (hpost : post (.ok text) t) : Runs (Files.readText path) t post := by
  refine Runs.bind (runs_ask ?_)
  rw [hread]
  dsimp only
  rw [htext]
  exact runs_pure hpost

end

end Machine

end CText
