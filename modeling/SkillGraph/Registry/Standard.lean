import SkillGraph.Registry.Basic

/-! The standard library: thirty atoms for actors, numbers, conditions, actions and tasks. -/
namespace SkillGraph

namespace Standard

def required (key : String) (kind : Kind) : Field := { key, kind }

def node (key : String) (base : Family) : Field := { key, kind := .node, base := some base }

def array (key : String) (base : Family) : Field :=
  { key, kind := .nodeArray, base := some base, rest := true }

def opt (f : Field) : Field := { f with optional := true }

def noted (f : Field) (description : String) : Field := { f with description }

def actors : List Atom := [
  { name := "Self", tag := "ActorSelf", category := "actor",
    description := "The actor that owns the running skill" },
  { name := "Target", tag := "ActorTarget", category := "actor",
    description := "The current target of the running skill" },
  { name := "Caster", tag := "ActorCaster", category := "actor",
    description := "The actor that applied the current buff" },
  { name := "Nearest", tag := "ActorNearest", category := "actor",
    fields := [noted (required "Team" .choice) "Ally, Enemy or Anyone",
      opt (node "Range" .numeric)],
    description := "Closest actor of the given team" },
  { name := "OnHit", tag := "EventOnHit", category := "event",
    description := "Raised when the owner lands a hit" },
  { name := "OnDamaged", tag := "EventOnDamaged", category := "event",
    description := "Raised when the owner takes damage" }]

def numbers : List Atom := [
  { name := "Max", tag := "FloatMax", category := "numeric",
    fields := [node "A" .numeric, node "B" .numeric],
    description := "Larger of two values" },
  { name := "Min", tag := "FloatMin", category := "numeric",
    fields := [node "A" .numeric, node "B" .numeric],
    description := "Smaller of two values" },
  { name := "Abs", tag := "FloatAbs", category := "numeric",
    fields := [node "Value" .numeric],
    description := "Absolute value" },
  { name := "Clamp", tag := "FloatClamp", category := "numeric",
    fields := [node "Value" .numeric, node "Low" .numeric, node "High" .numeric],
    description := "Value limited to [Low, High]" },
  { name := "Random", tag := "FloatRandom", category := "numeric",
    fields := [node "Low" .numeric, node "High" .numeric],
    description := "Uniform random value in [Low, High)" },
  { name := "Sum", tag := "FloatSum", category := "numeric",
    fields := [array "Values" .numeric],
    description := "Sum of every argument" },
  { name := "GetAttr", tag := "FloatGetAttr", category := "numeric",
    fields := [noted (required "Attr" .choice) "Attribute name",
      noted (opt (node "Actor" .actor)) "Defaults to Self"],
    description := "Current value of an actor attribute" },
  { name := "BuffStacks", tag := "FloatBuffStacks", category := "numeric",
    fields := [node "Actor" .actor, required "BuffId" .string],
    description := "Stack count of a buff on an actor" }]

def conditions : List Atom := [
  { name := "HasBuff", tag := "BoolHasBuff", category := "condition",
    fields := [node "Actor" .actor, required "BuffId" .string],
    description := "True if the actor carries the buff" },
  { name := "IsAlive", tag := "BoolIsAlive", category := "condition",
    fields := [node "Actor" .actor] },
  { name := "Chance", tag := "BoolChance", category := "condition",
    fields := [noted (node "Probability" .numeric) "0 to 1"],
    description := "True with the given probability" },
  { name := "All", tag := "BoolAll", category := "condition",
    fields := [array "Conditions" .boolean],
    description := "True if every condition holds" },
  { name := "Any", tag := "BoolAny", category := "condition",
    fields := [array "Conditions" .boolean],
    description := "True if any condition holds" }]

def actions : List Atom := [
  { name := "Heal", tag := "ActionHeal", category := "action",
    fields := [node "Target" .actor, node "Amount" .numeric],
    description := "Restore health to an actor" },
  { name := "Damage", tag := "ActionDamage", category := "action",
    fields := [node "Target" .actor, node "Amount" .numeric, opt (required "Element" .choice)],
    description := "Deal damage to an actor" },
  { name := "AddBuff", tag := "ActionAddBuff", category := "action",
    fields := [node "Target" .actor, required "BuffId" .string,
      noted (opt (required "Duration" .number)) "Seconds", opt (required "Refresh" .bool)],
    description := "Apply a buff to an actor" },
  { name := "RemoveBuff", tag := "ActionRemoveBuff", category := "action",
    fields := [node "Target" .actor, required "BuffId" .string] },
  { name := "If", tag := "ActionIf", category := "action",
    fields := [node "Condition" .boolean, node "Then" .action, opt (node "Else" .action)],
    description := "Run one of two actions depending on a condition" },
  { name := "Sequence", tag := "ActionSequence", category := "action",
    fields := [array "Actions" .action],
    description := "Run actions in order" },
  { name := "Combine", tag := "ActionCombine", category := "action",
    fields := [opt (array "Actions" .action)],
    description := "Run several actions as one" },
  { name := "Log", tag := "ActionLog", category := "action",
    fields := [required "Message" .string] }]

def tasks : List Atom := [
  { name := "Delay", tag := "TaskDelay", category := "task",
    fields := [required "Seconds" .number, node "Action" .action],
    description := "Run an action once after a delay" },
  { name := "Repeat", tag := "TaskRepeat", category := "task",
    fields := [required "Interval" .number, required "Count" .number, node "Action" .action],
    description := "Run an action Count times, Interval seconds apart" },
  { name := "OnEvent", tag := "TaskOnEvent", category := "task",
    fields := [node "Event" .event, node "Action" .action, opt (node "Filter" .boolean)],
    description := "Run an action whenever an event fires" }]

def atoms : List Atom := actors ++ numbers ++ conditions ++ actions ++ tasks

theorem sound_atoms : (atoms.foldl Store.push {}).Sound :=
  Store.sound_empty.foldl_push (by decide +kernel) (by decide +kernel) (by decide +kernel)

end Standard

def Registry.standard : Registry := ⟨Standard.atoms.foldl Store.push {}, Standard.sound_atoms⟩

end SkillGraph
