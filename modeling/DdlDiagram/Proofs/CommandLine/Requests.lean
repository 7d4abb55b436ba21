import DdlDiagram.CommandLine.Perform

/-!
# What the parts of a run give

Each part of a run gives a result or a failure and the world that it leaves. Here they are as
equations: parts one after the other, requests that are granted or refused, and the settings that
a path or a search leads to.
-/

namespace DdlDiagram

variable {α β : Type} {world left : World} {failure : Failure}
variable (readSettings : Text → Option Settings)

namespace Host

variable {x : ExceptT Failure (StateM World) α} {f : α → ExceptT Failure (StateM World) β}

theorem run_bind : (x >>= f).run world = ExceptT.bindCont f (x.run world).1 (x.run world).2 := rfl

/-- Parts of a run one after the other, if the first one gives a result. -/
theorem run_bind_of_ok {a : α} (h : x.run world = (.ok a, left)) :
    (x >>= f).run world = (f a).run left := by
  rw [run_bind, h]
  rfl

/-- If it fails, there is nothing behind it. -/
theorem run_bind_of_error (h : x.run world = (.error failure, left)) :
    (x >>= f).run world = (.error failure, left) := by
  rw [run_bind, h]
  rfl

/-- A request is answered by its refusal, or granted. Either way its turn is over. -/
theorem request_eq (action : StateM World (Except FileError α)) (world : World) :
    World.request action world =
      match world.refusals.head?.join with
      | some error => (.error error, { world with refusals := world.refusals.tail })
      | none => action { world with refusals := world.refusals.tail } := by
  obtain ⟨files, standardInput, standardOutput, warnings, refusals⟩ := world
  match refusals with
  | [] => rfl
  | none :: _ => rfl
  | some _ :: _ => rfl

theorem run_ask (action : StateM World (Except FileError α)) (failure : FileError → Failure)
    (world : World) : (Host.ask action failure).run world =
      ((action world).1.mapError failure, (action world).2) := rfl

theorem run_askText (action : StateM World (Except FileError ByteArray))
    (failure : FileError → Failure) (world : World) : (Host.askText action failure).run world =
      (((action world).1 >>= decodeUtf8).mapError failure, (action world).2) := rfl

theorem run_askText_readFile (path : Text) (failure : FileError → Failure) (world : World) :
    (Host.askText (World.host.readFile path) failure).run world =
      ((match world.refusals.head?.join with
        | some error => .error (failure error)
        | none => (world.files.read path >>= decodeUtf8).mapError failure),
        { world with refusals := world.refusals.tail }) := by
  have hread : World.host.readFile path = World.request fun world =>
      (world.files.read path, world) := rfl
  rw [run_askText, hread, request_eq]
  cases world.refusals.head?.join <;> rfl

theorem run_askText_readStandardInput (failure : FileError → Failure) (world : World) :
    (Host.askText World.host.readStandardInput failure).run world =
      match world.refusals.head?.join with
      | some error => (.error (failure error), { world with refusals := world.refusals.tail })
      | none => ((decodeUtf8 world.standardInput).mapError failure,
          { world with standardInput := .empty, refusals := world.refusals.tail }) := by
  have hread : World.host.readStandardInput = World.request fun world =>
      (.ok world.standardInput, { world with standardInput := .empty }) := rfl
  rw [run_askText, hread, request_eq]
  cases world.refusals.head?.join <;> rfl

theorem run_ask_writeFile (path : Text) (content : ByteArray) (failure : FileError → Failure)
    (world : World) : (Host.ask (World.host.writeFile path content) failure).run world =
      match world.refusals.head?.join, world.files.locationToWrite path with
      | some error, _ => (.error (failure error), { world with refusals := world.refusals.tail })
      | none, .error error =>
        (.error (failure error), { world with refusals := world.refusals.tail })
      | none, .ok location => (.ok (), { world with
          files := world.files.put location (.file content)
          refusals := world.refusals.tail }) := by
  have hwrite : World.host.writeFile path content = World.request _ := rfl
  rw [run_ask, hwrite, request_eq]
  cases world.refusals.head?.join with
  | some error => rfl
  | none =>
      rw [FileTree.write]
      cases world.files.locationToWrite path <;> rfl

theorem run_ask_writeStandardOutput (t : Text) (failure : FileError → Failure) (world : World) :
    (Host.ask (World.host.writeStandardOutput t) failure).run world =
      match world.refusals.head?.join with
      | some error => (.error (failure error), { world with refusals := world.refusals.tail })
      | none => (.ok (), { world with
          standardOutput := world.standardOutput ++ t
          refusals := world.refusals.tail }) := by
  have hwrite : World.host.writeStandardOutput t = World.request fun world =>
      (.ok (), { world with standardOutput := world.standardOutput ++ t }) := rfl
  rw [run_ask, hwrite, request_eq]
  cases world.refusals.head?.join <;> rfl

end Host

namespace Settings

def verdict (t : Text) : Except Failure Settings :=
  (readSettings t).elim (.error .malformedSettings) .ok

/-- What loading the settings at a path gives. -/
def loaded (world : World) (path : Text) : Except Failure Settings :=
  if world.files.isPresent path then
    match world.refusals.head?.join with
    | some error => .error (.unreadableSettings error)
    | none => (world.files.read path >>= decodeUtf8).mapError .unreadableSettings >>=
      verdict readSettings
  else .error (.missingSettings path)

/-- Settings are loaded by one request, and by none if nothing is there. -/
theorem run_load (path : Text) (world : World) :
    (load World.host readSettings path).run world = (loaded readSettings world path, { world with
      refusals := if world.files.isPresent path then world.refusals.tail else world.refusals }) := by
  have hpresent : (liftM (World.host.isPresent path) : ExceptT Failure (StateM World) Bool).run
      world = (.ok (world.files.isPresent path), world) := rfl
  have hread := Host.run_askText_readFile path .unreadableSettings world
  rw [load, Host.run_bind_of_ok hpresent, loaded]
  split
  · cases hrefusal : world.refusals.head?.join with
    | some error =>
        rw [hrefusal] at hread
        exact Host.run_bind_of_error hread
    | none =>
        rw [hrefusal] at hread
        cases htext : world.files.read path >>= decodeUtf8 with
        | error error =>
            rw [htext] at hread
            exact Host.run_bind_of_error hread
        | ok t =>
            rw [htext] at hread
            have hverdict : ((Except.ok t).mapError Failure.unreadableSettings >>=
                verdict readSettings) = verdict readSettings t := rfl
            rw [Host.run_bind_of_ok hread, hverdict, verdict]
            cases readSettings t <;> rfl
  · rfl

/-- A search looks at the files and leaves the world as it is. -/
theorem firstPresent?_eq (paths : List Text) (world : World) :
    firstPresent? World.host paths world = (paths.find? world.files.isPresent, world) := by
  induction paths with
  | nil => rfl
  | cons path rest ih =>
      have hrun : firstPresent? World.host (path :: rest) world =
          (if world.files.isPresent path then (pure (some path) : StateM World _) else
            firstPresent? World.host rest) world := rfl
      rw [hrun, List.find?_cons]
      cases world.files.isPresent path with
      | true => rfl
      | false => exact ih

/-- The settings in a world, found by a search. -/
theorem run_find_none (userSettings : Option Text) (world : World) :
    (find World.host readSettings userSettings none).run world =
      match (pathsToTry userSettings).find? world.files.isPresent with
      | some path => (load World.host readSettings path).run world
      | none => (.ok default, world) := by
  have hrun : (find World.host readSettings userSettings none).run world =
      (match (firstPresent? World.host (pathsToTry userSettings) world).1 with
        | some path => load World.host readSettings path
        | none => pure default).run
        (firstPresent? World.host (pathsToTry userSettings) world).2 := rfl
  rw [hrun, firstPresent?_eq]
  cases (pathsToTry userSettings).find? world.files.isPresent <;> rfl

end Settings
end DdlDiagram
