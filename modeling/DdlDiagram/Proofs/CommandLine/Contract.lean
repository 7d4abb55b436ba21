import DdlDiagram.Proofs.CommandLine.Requests

/-!
# Contracts for parts of a run

A contract says what holds of the result of a part of a run and of the world it leaves, and what
holds of the world in which it fails. Contracts of parts make up that of the parts one after the
other. A request keeps its contract if it does so when it is granted and when it is refused.
-/

namespace DdlDiagram

variable {α β : Type} {world left middle : World}

namespace World

/-- Nothing has been written from one world to another. -/
structure Untouched (world left : World) : Prop where
  files : left.files = world.files
  standardOutput : left.standardOutput = world.standardOutput

theorem Untouched.refl (world : World) : world.Untouched world := ⟨rfl, rfl⟩

theorem Untouched.trans (h : world.Untouched middle) (h' : middle.Untouched left) :
    world.Untouched left := ⟨h'.files.trans h.files, h'.standardOutput.trans h.standardOutput⟩

end World

/-- What holds of an outcome and the world it comes with: `done` if it is a result, `failed` if it
is an error. -/
def Meets (outcome : Except ε α × World) (done : α → World → Prop) (failed : World → Prop) :
    Prop :=
  match outcome.1 with
  | .ok a => done a outcome.2
  | .error _ => failed outcome.2

namespace Meets

variable {done done' : α → World → Prop} {after : β → World → Prop} {failed failed' : World → Prop}

theorem mono {outcome : Except ε α × World} (h : Meets outcome done failed)
    (hdone : ∀ a left, done a left → done' a left) (hfailed : ∀ left, failed left → failed' left) :
    Meets outcome done' failed' := by
  rcases outcome with ⟨result, left⟩
  cases result with
  | ok a => exact hdone a left h
  | error error => exact hfailed left h

theorem imp {outcome : Except ε α × World} (h : Meets outcome done failed)
    (hdone : ∀ a left, done a left → done' a left) : Meets outcome done' failed :=
  h.mono hdone fun _ => id

section

variable {x : ExceptT Failure (StateM World) α} {f : α → ExceptT Failure (StateM World) β}

/-- Parts of a run one after the other. The first one that fails is the last one. -/
theorem bind (h : Meets (x.run world) done failed)
    (hf : ∀ a left, done a left → Meets ((f a).run left) after failed) :
    Meets ((x >>= f).run world) after failed := by
  rw [Host.run_bind]
  rcases hx : x.run world with ⟨result, left⟩
  rw [hx] at h
  cases result with
  | ok a => exact hf a left h
  | error failure => exact h

/-- An action of the system that cannot fail. -/
theorem lift {action : StateM World α} (h : done (action world).1 (action world).2) :
    Meets ((liftM action : ExceptT Failure (StateM World) α).run world) done failed := h

end

/-- A request that is not refused is granted, and then done. -/
theorem request {action : StateM World (Except FileError α)}
    (hrefused : ∀ refusals, failed { world with refusals })
    (hgranted : ∀ refusals, Meets (action { world with refusals }) done failed) :
    Meets (World.request action world) done failed := by
  rw [World.request]
  cases hrefusals : world.refusals with
  | nil =>
      have hnil := hgranted []
      rwa [← hrefusals] at hnil
  | cons refusal rest =>
      cases refusal with
      | none => exact hgranted rest
      | some error => exact hrefused rest

variable {failure : FileError → Failure}

theorem ask {action : StateM World (Except FileError α)} (h : Meets (action world) done failed) :
    Meets ((Host.ask action failure).run world) done failed := by
  rw [Host.run_ask]
  rcases hresult : action world with ⟨result, left⟩
  rw [hresult] at h
  cases result with
  | ok a => exact h
  | error error => exact h

/-- Bytes that encode no text are an error. -/
theorem askText {action : StateM World (Except FileError ByteArray)} {done : Text → World → Prop}
    (h : Meets (action world) (fun content left =>
      (∀ t, decodeUtf8 content = .ok t → done t left) ∧ failed left) failed) :
    Meets ((Host.askText action failure).run world) done failed := by
  apply ask
  have hrun : ((· >>= decodeUtf8) <$> action) world =
      ((action world).1 >>= decodeUtf8, (action world).2) := rfl
  rw [hrun]
  rcases hresult : action world with ⟨result, left⟩
  rw [hresult] at h
  cases result with
  | error error => exact h
  | ok content =>
      obtain ⟨hdone, hfailed⟩ := h
      cases hdecode : decodeUtf8 content with
      | ok t =>
          have hbind : (Except.ok content >>= decodeUtf8) = .ok t := hdecode
          rw [hbind]
          exact hdone t hdecode
      | error error =>
          have hbind : (Except.ok content >>= decodeUtf8) = .error error := hdecode
          rw [hbind]
          exact hfailed

/-- The failure that is left behind tells which part of a contract holds. -/
theorem aftermath {outcome : Except Failure Unit × World} {done : Unit → World → Prop}
    (h : Meets outcome done failed) :
    ((Aftermath.ofOutcome outcome).failure ≠ none → failed outcome.2) ∧
      ((Aftermath.ofOutcome outcome).failure = none → done () outcome.2) := by
  rcases outcome with ⟨result, left⟩
  cases result with
  | ok done => exact ⟨fun hfailure => absurd rfl hfailure, fun _ => h⟩
  | error failure => exact ⟨fun _ => h, fun hnone => nomatch hnone⟩

end Meets
end DdlDiagram
