import Blockad.Model.Main

/-!
# `Blockad.Model.Ownership`: the watchers on the heap

The vector of `main` holds pointers. Here a pointer has an identity, its place in the order of
creation, and the heap knows which watchers were created and deleted.
-/

set_option autoImplicit false

namespace Blockad

/-- `Watcher *`: which watcher it is, and the watcher. -/
structure Pointer (ω : Type) where
  id : Nat
  watcher : ω

/-- The paths of the watchers that were created, and the watchers that were deleted, in their
order. -/
structure Heap (W : Type) where
  created : List Bytes
  deleted : List Nat
  world : W

namespace Heap

variable {H W ω β : Type}

/-- A watcher that exists. -/
def Live (heap : Heap W) (id : Nat) : Prop := id < heap.created.length ∧ id ∉ heap.deleted

/-- What neither creates nor deletes watchers. -/
def lift (p : EStateM Halt W β) : EStateM Halt (Heap W) β := fun heap =>
  match p heap.world with
  | .ok b world => .ok b { heap with world }
  | .error h world => .error h { heap with world }

/-- A watcher was created. -/
def push (path : Bytes) (watcher : ω) (heap : Heap W) : Pointer ω × Heap W :=
  (⟨heap.created.length, watcher⟩, { heap with created := heap.created ++ [path] })

/-- `new` and `delete`. -/
def watcherClass (cls : WatcherClass W ω) : WatcherClass (Heap W) (Pointer ω) where
  new path := do
    let watcher ← lift (cls.new path)
    modifyGet (push path watcher)
  delete pointer heap :=
    { heap with
      deleted := heap.deleted ++ [pointer.id]
      world := cls.delete pointer.watcher heap.world }
  pollfd pointer := cls.pollfd pointer.watcher

/-- `updateWatchers`, on the heap. -/
def updateWatchers (stray : (i j : Nat) → Except Halt Bytes) (os : Syscalls H W)
    (cls : WatcherClass W ω) (oldFiles : Option (List Bytes)) (newFiles : List Bytes)
    (oldWatchers : List (Pointer ω)) : EStateM Halt (Heap W) (List (Pointer ω)) :=
  updateWatchersWith stray (fun fd => lift (nonblock os fd)) (watcherClass cls) oldFiles newFiles
    oldWatchers

end Heap

end Blockad
