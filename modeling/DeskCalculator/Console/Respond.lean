import DeskCalculator.Console.Command
import DeskCalculator.Console.Show
import DeskCalculator.Session.Desk

/-!
# Answering a line

A response is what a line does to the session, what is to be stored, and what is printed. Most
commands end with showing the state; the history, the tax settings and a changed bound are shown
instead of it.

Specification: §E8.
-/

namespace DeskCalculator.Console

/-- What a line brings about. -/
structure Response where
  session : Session
  writes : List Store.Write := []
  printed : String := ""
  /-- Whether another line is read. -/
  goesOn : Bool := true

/-- Shows the state after what a line has printed. -/
def showing (reply : Reply) (printed : String) : Response where
  session := reply.session
  writes := reply.writes
  printed := noticeText reply.notices ++ printed ++ stateText reply.session

/-- Performs an operation on the item with an id and says how it went. -/
def onItem (s : Session) (now : History.Clock) (id : Option Int) (op : Int → Operation)
    (success : Int → String) : Response :=
  let missing := line ["no such item"]
  match id with
  | none => showing { session := s } missing
  | some id =>
    let reply := s.perform now (op id)
    showing reply (if reply.found = some true then success id else missing)

/-- Shows or changes the tax settings. -/
def respondTax (s : Session) (arguments : List (List Char)) : Response :=
  if arguments.isEmpty then { session := s, printed := taxText s.tax }
  else
    match changeTax s.tax arguments with
    | .ok settings =>
      let reply := s.setTax settings
      { session := reply.session, writes := reply.writes, printed := taxText reply.session.tax }
    | .error e => { session := s, printed := line [e.message] }

/-- Changes the history bound. -/
def respondBound (s : Session) : Option Nat → Response
  | some n =>
    let reply := s.setBound n
    { session := reply.session
      writes := reply.writes
      printed := line ["keeping ", natText reply.session.ledger.bound, " entries"] }
  | none => showing { session := s } (line ["usage: max <n>"])

/-- What a command brings about at a moment. -/
def execute (s : Session) (now : History.Clock) : Command → Response
  | .nothing => { session := s }
  | .quit => { session := s, goesOn := false }
  | .operate op => showing (s.perform now op) ""
  | .keys words => showing { session := words.foldl Session.type s } ""
  | .history => { session := s, printed := historyText s.ledger.items (s.countToday now) }
  | .delete id => onItem s now id .delete fun id ↦ line ["deleted ", intText id]
  | .note id text =>
    onItem s now id (.note · (String.ofList text)) fun _ ↦ line ["noted"]
  | .load id => onItem s now id .load fun _ ↦ ""
  | .tax arguments => respondTax s arguments
  | .bound n => respondBound s n

/-- What a line brings about at a moment. -/
def respond (s : Session) (now : History.Clock) (text : List Char) : Response :=
  execute s now (.ofLine text)

end DeskCalculator.Console
