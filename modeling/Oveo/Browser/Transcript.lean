import Mathlib.Data.List.Infix
import Mathlib.Data.List.Nodup
import Oveo.Lib.Machine
import Oveo.Store.Rows

/-! # The transcript in the browser

The workspace of `App.tsx` with the requests it has in flight.  Responses arrive in any order; the state
that is set is rendered some time later, and the effect that copies it to `detailRef` runs later still.
Of a conversation's detail the messages are kept. -/

namespace Oveo.Browser

open Oveo.Lib Oveo.Store

abbrev ThreadId := Nat

structure Message where
  id : Nat
  ordinal : Nat
  threadId : ThreadId
deriving DecidableEq, Repr

/-- `ThreadDetail`. -/
structure ThreadDetail where
  id : ThreadId
  messages : List Message
deriving DecidableEq

inductive View where
  | thread (id : ThreadId)
  | new (mode : Option Mode)
deriving DecidableEq

/-- `lastOrdinal`. -/
def lastOrdinal (detail : ThreadDetail) : Nat :=
  match detail.messages.getLast? with
  | some message => message.ordinal
  | none => 0

/-- `mergeDetail`. -/
def mergeDetail (previous : Option ThreadDetail) (loaded : ThreadDetail) (incremental : Bool) : ThreadDetail :=
  match previous with
  | none => loaded
  | some previous =>
    if !incremental || previous.id != loaded.id then loaded
    else
      let shown := previous.messages.map Message.id
      { loaded with messages := previous.messages ++ loaded.messages.filter fun message => !shown.contains message.id }

/-- The messages `thread_detail` returns. -/
def threadDetail (stored : List Message) (id : ThreadId) (afterOrdinal : Option Nat) : ThreadDetail where
  id := id
  messages :=
    match afterOrdinal with
    | some after => stored.filter fun message => decide (after < message.ordinal)
    | none => stored

/-- A request for a conversation, and the response on its way. -/
structure Request where
  number : Nat
  /-- The view it was made for. -/
  view : Nat
  id : ThreadId
  after : Option Nat
  /-- Of `refreshDetail`, or of `openView`. -/
  isRefresh : Bool
  response : Option ThreadDetail

/-- What a render shows: the view, which object it is, and the detail. -/
structure Screen where
  view : View
  number : Nat
  detail : Option ThreadDetail

structure Workspace where
  /-- The messages of each conversation on the server. -/
  stored : ThreadId → List Message
  /-- `viewRef`, and the detail that was set last. -/
  screen : Screen
  /-- What was rendered last. -/
  rendered : Screen
  detailRef : Option ThreadDetail
  detailRequest : Nat
  requests : List Request
  /-- The views that a turn is being sent from. -/
  sends : List View

/-- `current`: the detail of the conversation that is open. -/
def Screen.current (screen : Screen) : Option ThreadDetail :=
  match screen.view with
  | .thread id => screen.detail.filter fun detail => detail.id == id
  | .new _ => none

/-- What a failed request says. -/
inductive Failure where
  | unauthorized
  /-- 404. -/
  | missing
  | other
deriving DecidableEq

inductive BrowserAction where
  /-- A message is stored. -/
  | store (thread : ThreadId) (id : Nat)
  | openView (next : View)
  /-- A generation finished, is gone, or was refused because another one runs. -/
  | refreshDetail (id : ThreadId)
  | render
  /-- The effect that sets `detailRef`. -/
  | effect
  /-- The server reads the conversation of a request. -/
  | serve (request : Nat)
  | arrive (request : Nat)
  | fail (request : Nat) (failure : Failure)
  | send
  /-- The turn was accepted, in this conversation. -/
  | sent (send : Nat) (thread : ThreadId)
  /-- It was not; a 409 shows the turn that runs. -/
  | refused (send : Nat) (conflict : Bool)

/-- `enter`. -/
def Workspace.enter (w : Workspace) (next : View) : Workspace :=
  { w with screen := { view := next, number := w.screen.number + 1, detail := none } }

/-- A request is made for the view that is open. -/
def Workspace.request (w : Workspace) (id : ThreadId) (after : Option Nat) (isRefresh : Bool) : Workspace :=
  { w with
    detailRequest := w.detailRequest + 1
    requests := w.requests ++
      [{ number := w.detailRequest + 1, view := w.screen.number, id, after, isRefresh, response := none }] }

/-- `openView`. -/
def Workspace.openView (w : Workspace) (next : View) : Workspace :=
  match next with
  | .thread id => (w.enter next).request id none false
  | .new _ => w.enter next

/-- The `after` of a refresh: what `detailRef` shows of the conversation. -/
def Workspace.after (w : Workspace) (id : ThreadId) : Option Nat :=
  (w.detailRef.filter fun detail => detail.id == id).map lastOrdinal

/-- `refreshDetail`. -/
def Workspace.refreshDetail (w : Workspace) (id : ThreadId) : Workspace :=
  if w.screen.view = .thread id then w.request id (w.after id) true else w

/-- A response arrives. -/
def Workspace.receive (w : Workspace) (request : Request) (loaded : ThreadDetail) : Workspace :=
  if w.screen.number ≠ request.view ∨ w.detailRequest ≠ request.number then w
  else
    { w with
      screen :=
        { w.screen with
          detail := some (if request.isRefresh then mergeDetail w.screen.detail loaded request.after.isSome else loaded) } }

/-- A request failed. -/
def Workspace.failed (w : Workspace) (request : Request) (failure : Failure) : Workspace :=
  if w.screen.number ≠ request.view ∨ failure = .unauthorized then w
  else if request.isRefresh ∧ failure ≠ .missing then w
  else w.enter (.new none)

def browserStep (w : Workspace) : BrowserAction → Option Workspace
  | .store thread id =>
    if (w.stored thread).any fun message => message.id == id then none
    else
      some { w with
        stored := fun other =>
          if other = thread then w.stored thread ++ [⟨id, (w.stored thread).length + 1, thread⟩] else w.stored other }
  | .openView next => some (w.openView next)
  | .refreshDetail id => some (w.refreshDetail id)
  | .render => some { w with rendered := w.screen }
  | .effect => some { w with detailRef := w.rendered.detail }
  | .serve index =>
    match w.requests[index]? with
    | some request =>
      if request.response.isSome then none
      else
        some { w with
          requests := w.requests.set index
            { request with response := some (threadDetail (w.stored request.id) request.id request.after) } }
    | none => none
  | .arrive index =>
    match w.requests[index]? with
    | some request =>
      request.response.map fun loaded => { w with requests := w.requests.eraseIdx index }.receive request loaded
    | none => none
  | .fail index failure =>
    match w.requests[index]? with
    | some request => some ({ w with requests := w.requests.eraseIdx index }.failed request failure)
    | none => none
  | .send => some { w with sends := w.sends ++ [w.screen.view] }
  | .sent index thread =>
    match w.sends[index]? with
    | some origin =>
      let w := { w with sends := w.sends.eraseIdx index }
      -- Coming back to the same conversation counts as being there.
      if w.screen.view ≠ origin then some w
      else
        match origin with
        | .thread id => if thread = id then some (w.refreshDetail id) else none
        | .new _ => some ((w.enter (.thread thread)).refreshDetail thread)
    | none => none
  | .refused index conflict =>
    match w.sends[index]? with
    | some origin =>
      let w := { w with sends := w.sends.eraseIdx index }
      match origin with
      | .thread id => some (if conflict then w.refreshDetail id else w)
      | .new _ => some w
    | none => none

/-- The messages of a conversation are numbered from one on, and have ids of their own. -/
structure WellStored (thread : ThreadId) (messages : List Message) : Prop where
  ordinals : messages.map Message.ordinal = List.range' 1 messages.length
  threads : ∀ message ∈ messages, message.threadId = thread
  ids : (messages.map Message.id).Nodup

/-- A workspace before its first load. -/
structure IsInitial (w : Workspace) : Prop where
  stored : ∀ thread, WellStored thread (w.stored thread)
  screen : w.screen.detail = none
  rendered : w.rendered = w.screen
  detailRef : w.detailRef = none
  requests : w.requests = []

def browser : Machine Workspace BrowserAction where
  init := IsInitial
  step := browserStep

end Oveo.Browser
