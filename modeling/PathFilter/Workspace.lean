import PathFilter.Load

/-!
# Workspaces

A **workspace** is what a session of work on filters holds: the configuration being worked on,
configurations saved under names, and plans under names. A `Command` changes it or asks it
something, and always gets a `Reply`.

* A plan is made from the configuration as it is at that moment, and does not follow later edits.
* A command that is refused leaves the workspace as it was (`Workspace.step_of_refused`).
* An edit of a condition or of the case flag where no filter is configured starts from the filter
  without conditions; taking a condition away there does nothing.
-/

namespace PathFilter

/-! ### Named things -/

/-- Things under names, the latest first. -/
abbrev Named (α : Type) : Type := List (String × α)

/-- Puts a thing under a name; what was there before is lost. -/
def Named.put {α : Type} (xs : Named α) (name : String) (a : α) : Named α :=
  (name, a) :: xs.filter (·.1 != name)

/-- Takes away what is under a name. -/
def Named.remove {α : Type} (xs : Named α) (name : String) : Named α := xs.filter (·.1 != name)

/-- What is under a name. -/
def Named.get? {α : Type} (xs : Named α) (name : String) : Option α := xs.lookup name

@[simp] theorem Named.get?_put_self {α : Type} (xs : Named α) (name : String) (a : α) :
    (xs.put name a).get? name = some a := by
  simp [Named.put, Named.get?]

/-! ### Commands and replies -/

/-- What a workspace can be told or asked. -/
inductive Command where
  /-- Configures the filter without conditions. -/
  | new
  /-- Configures no filter. -/
  | withoutFilter
  | edit (edit : Edit)
  | clear (kind : Kind)
  /-- Configures what a script writes down. -/
  | loadScript (script : String)
  /-- Configures what a JSON text writes down. -/
  | loadJson (text : String)
  | save (name : String)
  | restore (name : String)
  /-- Asks whether a saved configuration is the current one. -/
  | same (name : String)
  | isSet (kind : Kind)
  | describe
  /-- Makes a plan of the current configuration. -/
  | plan (name : String)
  /-- Makes a plan of what a script writes down. -/
  | planScript (name : String) (script : String)
  | judge (name : String) (subject : Subject)

/-- What a workspace answers. -/
inductive Reply where
  | configuration (c : Configuration)
  | same (same : Bool)
  /-- Whether a condition is present, if a filter is configured. -/
  | isSet (present : Option Bool)
  | description (c : Configuration)
  /-- The plan made, if there was a filter to make it of. -/
  | plan (plan : Option Plan)
  | judgement (judgement : Judgement)
  | refused (error : LoadError)
  | noConfiguration
  | noPlan

/-- What a session of work holds. -/
structure Workspace where
  current : Configuration := none
  saved : Named Configuration := []
  plans : Named Plan := []

namespace Workspace

/-- Replaces the current configuration and tells it. -/
def configure (w : Workspace) (c : Configuration) : Reply × Workspace :=
  (.configuration c, { w with current := c })

/-- Keeps a plan under a name; where there is none the name is given up. -/
def keepPlan (w : Workspace) (name : String) (plan : Option Plan) : Reply × Workspace :=
  (.plan plan,
    { w with plans := match plan with
        | some m => w.plans.put name m
        | none => w.plans.remove name })

/-- Carries out a command: what is answered, and the workspace after it. -/
def step (w : Workspace) : Command → Reply × Workspace
  | .new => w.configure (some Filter.empty)
  | .withoutFilter => w.configure none
  | .edit e => w.configure (some ((w.current.getD Filter.empty).edit e))
  | .clear k => w.configure (w.current.map (·.clear k))
  | .loadScript s =>
    match Configuration.ofScript s with
    | .error e => (.refused e, w)
    | .ok c => w.configure c
  | .loadJson s =>
    match Configuration.ofJson s with
    | .error e => (.refused e, w)
    | .ok c => w.configure c
  | .save name =>
    (.configuration w.current, { w with saved := w.saved.put name w.current })
  | .restore name =>
    match w.saved.get? name with
    | none => (.noConfiguration, w)
    | some c => w.configure c
  | .same name =>
    match w.saved.get? name with
    | none => (.noConfiguration, w)
    | some c => (.same (c == w.current), w)
  | .isSet k => (.isSet (w.current.map (·.isSet k)), w)
  | .describe => (.description w.current, w)
  | .plan name => w.keepPlan name (Configuration.plan? w.current)
  | .planScript name s =>
    match Plan.ofScript s with
    | .error e => (.refused e, w)
    | .ok plan => w.keepPlan name plan
  | .judge name s =>
    match w.plans.get? name with
    | none => (.noPlan, w)
    | some m => (.judgement (m.judge s), w)

/-- A command that is refused leaves the workspace as it was. -/
theorem step_of_refused {w w' : Workspace} {c : Command} {e : LoadError}
    (h : w.step c = (.refused e, w')) : w' = w := by
  -- only the commands that load something can be refused
  unfold step at h
  split at h <;> (try split at h) <;> simp_all [configure, keepPlan]

end Workspace

end PathFilter
