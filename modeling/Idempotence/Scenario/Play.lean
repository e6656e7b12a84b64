/-
  Playing scenarios of the engine.

  The replies of a body are kept even where the block around it fails: every open block has a cell for
  them, which is empty until the body has run.  A crash goes through all blocks; its step has no reply
  but the crash.

  A named context is in use while a phase runs that was started through its name, and cannot be closed
  or dropped then.
-/
import Idempotence.Scenario.Step

namespace Idempotence.Scenario

/-- What a step is played with. -/
structure Frame where
  setup : Setup
  /-- The context of the body around the step. -/
  own : Option Context := none

namespace Frame

/-- The provider. -/
def provider (f : Frame) : Provider Bench := f.setup.provider

end Frame

/-! ## Contexts -/

/-- The context that a step is about. -/
def Subject.find (f : Frame) : Subject → Action Bench (Option Context)
  | .named name => Action.look Bench.contextsPart fun t => (t.get? name).map (·.context)
  | .own => pure f.own

/-- Does something with the context that a step is about. -/
def Subject.within (f : Frame) (on : Subject) (act : Context → Action Bench Answer) : Action Bench Answer := do
  match ← on.find f with
  | none => return .error .noContext
  | some c => act c

/-- The description of a context and what is active in it. -/
def contextReport (c : Context) (s : ContextState) : Json :=
  let phaseJson (p : Phase) : Json :=
    .array [.string p.id, .bool p.isFinal, .bool p.transactional, Setting.listToJson p.settings]
  .ofMembers
    [ ("process", .string c.process),
      ("key", .string c.key),
      ("settings", Setting.listToJson c.settings),
      ("was_final", .bool s.wasFinal),
      ("recorded_final", optional .string c.recordedFinal),
      ("current", optional (fun a => phaseJson a.phase) s.active),
      ("debug", .string (c.debugText s.wasFinal)) ]

/-- Starts an instance and gives its context a name. -/
def startAs (f : Frame) (name process key : String) (timeout : Duration)
    (settings : Except Error (List Setting)) : Action Bench Answer := do
  if ← Action.look Bench.contextsPart (·.contains name) then return .error .nameTaken
  match settings with
  | .error e => return .error (.engine e)
  | .ok settings => match ← f.provider.start process key timeout settings with
    | .error e => return .error (.engine e)
    | .ok c =>
      Action.change Bench.contextsPart (·.insert name { context := c })
      return .ok (← c.look (contextReport c))

/-- Takes the context of a name off the bench, unless it is in use. -/
def takeNamed (name : String) : Action Bench (Except Failure Context) :=
  Action.on Bench.contextsPart fun t => match t.get? name with
    | none => (.error .noContext, t)
    | some n => if n.users = 0 then (.ok n.context, t.erase name) else (.error .contextBusy, t)

/-- Closes the context of a name. -/
def closeNamed (f : Frame) (name : String) : Action Bench Answer := do
  match ← takeNamed name with
  | .error e => return .error e
  | .ok c => return ofResult unitJson (← f.provider.close c)

/-- Drops the context of a name. -/
def dropNamed (f : Frame) (name : String) : Action Bench Answer := do
  match ← takeNamed name with
  | .error e => return .error e
  | .ok c =>
    f.provider.drop c
    return .ok .null

/-- Changes how many phases run through a name. -/
def changeUsers (change : Nat → Nat) : Subject → Action Bench Unit
  | .named name => Action.change Bench.contextsPart fun t => match t.get? name with
    | none => t
    | some n => t.insert name { n with users := change n.users }
  | .own => pure ()

/-- Does something while the context counts as in use. -/
def Subject.using (on : Subject) {α : Type} (act : Action Bench α) : Action Bench α := do
  changeUsers (· + 1) on
  act.onExit (changeUsers (· - 1) on)

/-- Drops all named contexts in the order of their names, and all handles, and opens the backend anew. -/
def reopenAll (f : Frame) : Action Bench Answer := do
  let named ← Action.on Bench.contextsPart fun t => (t.entries.map (·.2.context), Table.empty)
  named.forM f.provider.drop
  Action.change Bench.handlesPart fun _ => Table.empty
  f.setup.backend.opened
  return .ok .null

/-! ## The bench -/

/-- The counters as a reply. -/
def statsJson (s : Stats) : Json := .ofMembers
  [ ("created", .nat s.created), ("closed", .nat s.closed), ("started", .nat s.started),
    ("executed", .nat s.executed), ("replayed", .nat s.replayed), ("raced", .nat s.raced),
    ("failed", .nat s.failed) ]

/-- The deliveries as a reply. -/
def sinkJson (d : Deliveries) : Json := .ofMembers
  [ ("deliveries", .array (d.map fun batch => .array (batch.map Message.toJson))),
    ("messages", .nat d.flatten.length) ]

/-- The calls of the stubs that are in use. -/
def stubJson (s : Setup) (b : Bench) : Json := .ofMembers
  [ ("calls", optional (fun _ => .nat b.stubCalls.obtains) s.stub),
    ("releases", optional (fun _ => .nat b.stubCalls.releases) s.stub),
    ("reads", optional (fun _ => .nat b.winnerCalls.reads) s.winner),
    ("inserts", optional (fun _ => .nat b.winnerCalls.inserts) s.winner) ]

/-! ## Commands -/

/-- **Plays a command.** -/
def Command.play (f : Frame) : Command → Action Bench Answer
  | .start name process key timeout settings => startAs f name process key timeout settings
  | .close name => closeNamed f name
  | .drop name => dropNamed f name
  | .validateInputs on inputs => on.within f fun c => do
    return ofResult unitJson (← c.validateInputs f.provider.executor inputs)
  | .validateInput on input => on.within f fun c => do
    return ofResult unitJson (← c.validateInput f.provider.executor input)
  | .publish on message => on.within f fun c => match message with
    | .error e => pure (.error (.engine e))
    | .ok m => do return ofResult unitJson (← c.publish benchSink m)
  | .describe on => on.within f fun c => do return .ok (← c.look (contextReport c))
  | .properties on steps => on.within f fun c => do
    return .ok (.array (← c.withProperties (PropertyStep.runAll steps)))
  | .phaseProperties on steps => on.within f fun c => do
    return .ok (optional .array (← c.withPhaseProperties (PropertyStep.runAll steps)))
  | .setClock now => do
    Action.change Bench.nowPart fun _ => now
    return .ok .null
  | .setFaults faults => do
    Action.change Bench.faultsPart fun _ => faults
    return .ok .null
  | .log => do return .ok (.strings (← Action.look Bench.logPart id))
  | .stats => do return .ok (statsJson (← Action.look Bench.statsPart id))
  | .sink => do return .ok (sinkJson (← Action.look Bench.deliveriesPart id))
  | .stub => Process.look fun w => .ok (stubJson f.setup w.env)
  | .stored key => do
    let recordJson (r : StoredRecord) : Json := .array [.string r.data, .bool r.isFinal]
    return .ok (resultJson (optional recordJson) ((← f.provider.store.get key).mapError .store))
  | .backend step => do return .ok (← step.run f.setup.backend)
  | .describeProvider => return .ok (.string f.provider.debugText)
  | .trace => do return .ok (← BackendStep.takeTrace)
  | .reopen => reopenAll f

/-! ## Blocks -/

/-- **The reply of a step**: its answer and, for a block, the replies of its body. -/
structure Reply where
  answer : Answer
  extra : List (String × Json) := []

namespace Reply

/-- The members of a reply. -/
def members (r : Reply) : List (String × Json) := r.answer.members ++ r.extra

/-- A reply as JSON. -/
def report (r : Reply) : Json := .ofMembers r.members

end Reply

/-- Opens a cell for the replies of a body. -/
def openTranscript : Action Bench Unit := Action.change Bench.transcriptsPart (none :: ·)

/-- Fills the innermost cell. -/
def fillTranscript (replies : List Json) : Action Bench Unit :=
  Action.change Bench.transcriptsPart fun l => some replies :: l.drop 1

/-- Closes the innermost cell. -/
def closeTranscript : Action Bench (Option (List Json)) :=
  Action.on Bench.transcriptsPart fun l => (l.head?.join, l.drop 1)

/-- Plays a block whose body is given.  The body gets its frame and the type of its value. -/
def Block.play (f : Frame) (body : Frame → ValueType → Action Bench Answer) :
    Block → Action Bench Answer
  | .phase on wanted type => do
    match ← on.find f with
    | none => return .error .noContext
    | some c => match wanted with
      | .error e => return .error (.engine e)
      | .ok wanted =>
        let run := f.provider.runPhase c wanted type.codec (body { f with own := some c } type)
        let answer ← on.using run
        return answer.map type.reply
  | .process kind key timeout settings => match settings with
    | .error e => pure (.error (.engine e))
    | .ok settings => f.provider.runProcess kind key timeout settings fun c =>
      body { f with own := some c } .document
  | .request handler key inputs =>
    let handler := match handler with
      | .given h => h
      | .provider kind => .ok (Handler.ofConfig kind f.setup.config)
    match handler with
    | .error e => pure (.error (.engine e))
    | .ok h => h.handle f.provider key inputs fun c => body { f with own := some c } .document

/-- How far a body has come. -/
structure Progress where
  replies : List Json := []
  /-- The value of the last step that succeeded. -/
  last : Json := .null
  /-- The failure of a required step. -/
  failure : Option Failure := none

/-- Adds the reply of a step. -/
def Progress.add (p : Progress) (r : Reply) (required : Bool) : Progress where
  replies := p.replies ++ [r.report]
  last := match r.answer with
    | .ok v => v
    | .error _ => p.last
  failure := match r.answer with
    | .ok _ => none
    | .error e => if required then some e else none

/-- Ends a body. -/
def Conclusion.play (type : ValueType) (p : Progress) : Conclusion → Action Bench Answer
  | .value v => pure ((type.accept v).mapError .engine)
  | .last => pure ((type.accept p.last).mapError .engine)
  | .failure e => pure (.error e)
  | .crash message => Process.crash message

mutual

/-- **Plays a step.** -/
def Step.play (f : Frame) : Step → Action Bench Reply
  | .command c _ => do return { answer := ← c.play f }
  | .block b body conclusion _ => do
    openTranscript
    let answer ← b.play f fun f type => do
      let p ← Step.playAll f body {}
      fillTranscript p.replies
      match p.failure with
      | some e => return .error e
      | none => conclusion.play type p
    let replies ← closeTranscript
    return { answer, extra := [("body", optional .array replies)] }

/-- Plays steps one after the other, up to a required one that fails. -/
def Step.playAll (f : Frame) : List Step → Progress → Action Bench Progress
  | [], p => return p
  | s :: rest, p => do
    let p := p.add (← s.play f) s.required
    if p.failure.isSome then return p
    Step.playAll f rest p

end

/-! ## Whole scenarios -/

/-- What is counted after every step of a scenario. -/
def counts (s : Setup) (b : Bench) : List (String × Json) :=
  ("records", .nat (s.backend.recordCount b)) :: match s.backend.lockCount b with
    | some n => [("locks", .nat n)]
    | none => []

/-- The world without open blocks. -/
def World.settled (w : World Bench) : World Bench := w.modifyEnv fun b => { b with transcripts := [] }

/-- **Plays steps one after the other**; a crash is the reply of its step alone. -/
def playSteps (setup : Setup) : List Step → World Bench → List Json
  | [], _ => []
  | s :: rest, w =>
    let (outcome, w) := (s.play { setup }).run w
    let reply := match outcome with
      | .value r => r.members
      | .crashed message => crashMembers message
    .ofMembers (reply ++ counts setup w.env) :: playSteps setup rest (World.settled w)

/-- **The replies of a scenario.** -/
def play (setup : Setup) (steps : List Step) : List Json :=
  playSteps setup steps (setup.backend.opened.run { env := Bench.fresh }).2

end Idempotence.Scenario
