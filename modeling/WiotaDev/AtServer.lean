import WiotaDev.LineFraming
import WiotaDev.WordBytes
import Mathlib.Data.List.TakeWhile

/-! # The AT server

`server_parser` collects characters in `recv_buffer` until they contain the end mark, and then
hands the line to the command that its name selects. A command may read on from the device. -/

namespace WiotaDev.AtServer
open WordBytes LineFraming

def AT_CMD_NAME_LEN : ℕ := 24
def AT_SERVER_RECV_BUFF_LEN : ℕ := 256

def CR : Byte := 0x0D
def LF : Byte := 0x0A
def ESC_KEY : Byte := 0x1B
def BACKSPACE_KEY : Byte := 0x08
def DELECT_KEY : Byte := 0x7F
def QUESTION_MARK : Byte := 0x3F
def EQUAL_MARK : Byte := 0x3D
def L_SQ_BRACKET : Byte := 0x5B
def R_SQ_BRACKET : Byte := 0x5D
def L_ANGLE_BRACKET : Byte := 0x3C
def R_ANGLE_BRACKET : Byte := 0x3E
def COMMA_MARK : Byte := 0x2C

def IsDigit (c : Byte) : Prop := 0x30 ≤ c ∧ c ≤ 0x39

instance (c : Byte) : Decidable (IsDigit c) := inferInstanceAs (Decidable (_ ∧ _))

/-- An entry of the command table: which handlers it has, and the expression of the arguments of
`setup`. -/
structure Cmd where
  name : List Byte
  test : Bool
  query : Bool
  setup : Option (List Byte)
  exec : Bool
  deriving DecidableEq

inductive Form
  | test | query | setup | exec
  deriving DecidableEq

/-- What becomes of a line. -/
inductive Dispatch
  | matchFailed
  | checkFailed
  | ignored
  | called (cmd : Cmd) (form : Form) (args : List Byte)
  deriving DecidableEq

/-- `at_check_args`, true where it returns `RT_EOK`. -/
def atCheckArgs (args argsFormat : List Byte) : Bool :=
  let leftSq := argsFormat.count L_SQ_BRACKET
  let rightSq := argsFormat.count R_SQ_BRACKET
  let leftAngle := argsFormat.count L_ANGLE_BRACKET
  let rightAngle := argsFormat.count R_ANGLE_BRACKET
  if leftSq ≠ rightSq ∨ leftAngle ≠ rightAngle ∨ leftSq > leftAngle then false
  else
    let comma := args.count COMMA_MARK
    if comma + 1 < leftAngle - leftSq ∨ comma + 1 > leftAngle then false else true

/-- `rt_strncmp(cmd->name, text, rt_strlen(cmd->name)) != 0`. -/
def Cmd.Differs (cmd : Cmd) (text : List Byte) : Prop := ¬ cmd.name <+: text

instance (cmd : Cmd) (text : List Byte) : Decidable (cmd.Differs text) :=
  inferInstanceAs (Decidable (¬ _))

def RSSI_NAME : List Byte := [0x41, 0x54, 0x2B, 0x52, 0x53, 0x53, 0x49]
def FREQ_NAME : List Byte := [0x41, 0x54, 0x2B, 0x46, 0x52, 0x45, 0x51]

/-- `at_cmd_process`, up to the call. Behind the line there are zeros. -/
def atCmdProcess (cmd : Cmd) (args : List Byte) : Dispatch :=
  let a (i : ℕ) := args.getD i 0
  if a 0 = EQUAL_MARK ∧ a 1 = QUESTION_MARK ∧ a 2 = CR then
    if cmd.test then .called cmd .test args else .matchFailed
  else if a 0 = QUESTION_MARK ∧ a 1 = CR then
    if cmd.query then .called cmd .query args else .matchFailed
  else if a 0 = EQUAL_MARK ∨ (IsDigit (a 0) ∧ a 1 = CR) then
    match cmd.setup with
    | none => .matchFailed
    | some argsExpr =>
      if cmd.Differs RSSI_NAME ∧ cmd.Differs FREQ_NAME then
        if atCheckArgs args argsExpr then .called cmd .setup args else .checkFailed
      else .called cmd .setup args
  else if a 0 = CR then
    if cmd.exec then .called cmd .exec args else .matchFailed
  else .ignored

/-- The characters that end a name. -/
def IsStop (c : Byte) : Prop := c = QUESTION_MARK ∨ c = EQUAL_MARK ∨ c = CR ∨ IsDigit c

instance (c : Byte) : Decidable (IsStop c) := inferInstanceAs (Decidable (_ ∨ _))

/-- `at_cmd_get_name`. -/
def atCmdGetName (line : List Byte) : Option (List Byte) :=
  match line.findIdx? fun c => IsStop c with
  | none => none
  | some i => if AT_CMD_NAME_LEN ≤ i then none else some (line.take i)

/-- The lower case of `rt_strcasecmp`. -/
def lower (c : Byte) : Byte := if 0x41 ≤ c ∧ c ≤ 0x5A then c + 0x20 else c

/-- `at_find_cmd`. -/
def atFindCmd (table : List Cmd) (name : List Byte) : Option Cmd :=
  table.find? fun cmd => name.map lower = cmd.name.map lower

/-- What `server_parser` does with a line. -/
def dispatch (table : List Cmd) (line : List Byte) : Dispatch :=
  match atCmdGetName line with
  | none => .matchFailed
  | some name =>
    match atFindCmd table name with
    | none => .matchFailed
    | some cmd => atCmdProcess cmd (line.drop name.length)

/-- `struct at_server`, and `last_ch`. -/
structure Server where
  recvBuffer : List Byte
  curRecvLen : ℕ
  echoMode : Bool
  lastCh : Byte

/-- `memset` of the buffer, and `cur_recv_len = 0`. -/
def Server.clear (s : Server) : Server :=
  { s with recvBuffer := List.replicate AT_SERVER_RECV_BUFF_LEN 0, curRecvLen := 0 }

/-- The string in a buffer. -/
def cString (buffer : List Byte) : List Byte := buffer.takeWhile fun c => c ≠ 0

/-- What is echoed for a character. -/
def echoText (lastCh ch : Byte) : List Byte :=
  if ch = CR ∨ (ch = LF ∧ lastCh ≠ CR) then [CR, LF] else if ch = LF then [] else [ch]

/-- What `server_parser` does with a character: it ends, waits for the next one, or has a line. -/
inductive Heard
  | stop
  | wait (s : Server) (echo : List Byte)
  | line (s : Server) (echo : List Byte)

def hear (s : Server) (ch : Byte) : Heard :=
  if ch = 0 then .wait s []
  else if ch = ESC_KEY then .stop
  else if s.echoMode = true ∧ (ch = BACKSPACE_KEY ∨ ch = DELECT_KEY) then
    if s.curRecvLen ≠ 0 then
      .wait { s with
        recvBuffer := s.recvBuffer.set (s.curRecvLen - 1) 0
        curRecvLen := s.curRecvLen - 1 } [0x08, 0x20, 0x08]
    else .wait s []
  else
    let echo := if s.echoMode then echoText s.lastCh ch else []
    let s := { s with
      recvBuffer := s.recvBuffer.set s.curRecvLen ch
      curRecvLen := s.curRecvLen + 1
      lastCh := ch }
    if [CR, LF] <:+: cString s.recvBuffer then .line s echo
    else if s.curRecvLen + 1 = AT_SERVER_RECV_BUFF_LEN then .wait s.clear echo
    else .wait s echo

/-- The command table, and how many of the characters that follow its line a handler reads
itself. -/
structure Env where
  table : List Cmd
  takes : Cmd → Form → List Byte → List Byte → ℕ

/-- What a handler reads behind its line. -/
def Env.reads (env : Env) (rest : List Byte) : Dispatch → ℕ
  | .called cmd form args => env.takes cmd form args rest
  | _ => 0

/-- A line that has been dispatched, and the data its handler has read. -/
structure Event where
  line : List Byte
  dispatch : Dispatch
  data : List Byte

/-- `server_parser`, until the input is used up or the loop is left; the server is `none` then. -/
def serverParser (env : Env) : ℕ → Server → List Byte → List Event × Option Server
  | 0, s, _ => ([], some s)
  | _ + 1, s, [] => ([], some s)
  | n + 1, s, ch :: rest =>
    match hear s ch with
    | .stop => ([], none)
    | .wait s _ => serverParser env n s rest
    | .line s _ =>
      let line := cString s.recvBuffer
      let d := dispatch env.table line
      let k := env.reads rest d
      let r := serverParser env n s.clear (rest.drop k)
      (⟨line, d, rest.take k⟩ :: r.1, r.2)

/-- `at_server_init`. -/
def Server.init : Server := ⟨List.replicate AT_SERVER_RECV_BUFF_LEN 0, 0, false, 0⟩

end WiotaDev.AtServer
