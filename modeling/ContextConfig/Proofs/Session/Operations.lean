import ContextConfig.Session
/-!
# Runs of operations on a session

A session is told to do one thing after the other. Between two operations the files can change in
whatever way, and so can the held configuration, since it is handed out to those that read it. What
every operation keeps is kept by a whole run.
-/

namespace ContextConfig.Session

/-- What a session can be told to do, with the files as they are then. -/
inductive Operation where
  | load (w : World) (discardInvalid : Bool)
  | loadFile (w : World) (p : Path)
  | readCurrent
  | useContext (name : String) (requireExisting : Bool)
  | removeContext (name : String)
  | applyOverrides (layers : List Layer)
  | commit (staged : Configuration)
  | validate
  | save (w : World) (refusals : Refusals) (p : Option Path) (format : Option Format)
  /-- a change from outside, by one to whom the held configuration was handed out -/
  | edit (change : Configuration → Configuration)

/-- The session after an operation, whether it succeeds or not. -/
def step (s : Session) : Operation → Session
  | .load w discardInvalid => (s.load w discardInvalid).value.2
  | .loadFile w p => (s.loadFile w p).value.2
  | .readCurrent => s.heal
  | .useContext name requireExisting => (s.useContext name requireExisting).value.2
  | .removeContext name => (s.removeContext name).value.2
  | .applyOverrides layers => (s.applyOverrides layers).value.2
  | .commit staged => (s.commit staged).toOption.getD s
  | .validate => s.validate.2
  | .save w refusals p format => (s.save w refusals p format).value.2.1
  | .edit change => { s with configuration := change s.configuration }

/-- The session after operations, one after the other. -/
def run (s : Session) (ops : List Operation) : Session := ops.foldl step s

/-- A session and a configuration that is staged beside it; errors leave both as they are by then. -/
abbrev Staging := ExceptT Error (StateM (Session × Configuration))

/-- Normalise the hosts of the staged configuration and hold it. -/
def holdStaged : Staging Unit := do
  modify fun (s, staged) => (s, staged.normalizeHosts)
  modify fun (s, staged) => ({ s with configuration := staged }, staged)

/-- Committing as it goes on for both: the staged configuration is changed in place, and not before
it has been checked. -/
def commitStaged : Staging Unit := do
  let (_, staged) ← get
  ExceptT.mk (pure staged.check)
  holdStaged

theorem run_commitStaged (s : Session) (staged : Configuration) :
    commitStaged.run.run (s, staged) =
      match s.commit staged with
      | .error error => (.error error, s, staged)
      | .ok s' => (.ok (), s', s'.configuration) := by
  have hrun : commitStaged.run.run (s, staged)
      = ExceptT.bindCont (fun _ => holdStaged) staged.check (s, staged) := rfl
  rw [hrun, commit]
  cases staged.check <;> rfl

/-- What each operation of a run keeps is there after every one of them. -/
theorem run_keeps {P : Session → Prop} {s : Session} {ops : List Operation}
    (hstep : ∀ s, ∀ op ∈ ops, P s → P (s.step op)) (h : P s) : P (s.run ops) := by
  induction ops generalizing s with
  | nil => exact h
  | cons op ops ih =>
    obtain ⟨hop, hops⟩ := List.forall_mem_cons.mp fun op hop s => hstep s op hop
    exact ih (fun s op hmem => hops op hmem s) (hop s h)

end ContextConfig.Session
