import INA2A.Lib.Bytes
import INA2A.Lib.Lines
import INA2A.Lib.Machine

/-! `Logger` (`log.h`): the records that the buffer behind `std::cout` and `std::cerr` makes of
what is written, and what the worker makes of the records. -/
namespace INA2A

open ByteBuffers EventMachine Lines

inductive Level
  | info | warn | error
  deriving DecidableEq, Repr

/-- A call of `Logger::log`. -/
structure Record where
  level : Level
  message : List Byte
  deriving DecidableEq, Repr

def newline : Byte := 10
def eof : ℤ := -1

def text (s : String) : List Byte := s.toList.map fun ch => BitVec.ofNat 8 ch.toNat

structure LogStreamBuf where
  level : Level
  buffer : List Byte

def LogStreamBuf.overflow (b : LogStreamBuf) (c : ℤ) : LogStreamBuf × List Record :=
  if c ≠ eof then
    let ch : Byte := BitVec.ofInt 8 c
    let buffer := b.buffer ++ [ch]
    if ch = newline then
      ({ b with buffer := [] },[⟨b.level,buffer.take (buffer.length - 1)⟩])
    else ({ b with buffer := buffer },[])
  else (b,[])

def LogStreamBuf.sync (b : LogStreamBuf) : LogStreamBuf × List Record :=
  if b.buffer ≠ [] then ({ b with buffer := [] },[⟨b.level,b.buffer⟩]) else (b,[])

/-- There is no put area, so every character written goes through `overflow`. -/
def LogStreamBuf.step (b : LogStreamBuf) : Op Byte → LogStreamBuf × List Record
  | .put ch => b.overflow ch.toNat
  | .flush => b.sync

def LogStreamBuf.run (b : LogStreamBuf) : List (Op Byte) → LogStreamBuf × List Record
  | [] => (b,[])
  | op::ops => (((b.step op).1.run ops).1,(b.step op).2 ++ ((b.step op).1.run ops).2)

def records (level : Level) (ops : List (Op Byte)) : List Record :=
  (LogStreamBuf.run ⟨level,[]⟩ ops).2

theorem overflow_put (b : LogStreamBuf) (ch : Byte) : b.overflow ch.toNat =
    if ch = newline then ({ b with buffer := [] },[⟨b.level,b.buffer⟩])
    else ({ b with buffer := b.buffer ++ [ch] },[]) := by
  have hchar : BitVec.ofInt 8 (ch.toNat : ℤ) = ch := by
    rw [BitVec.ofInt_natCast,BitVec.ofNat_toNat,BitVec.setWidth_eq]
  have heof : (ch.toNat : ℤ) ≠ eof := by
    rw [eof]
    omega
  simp only [LogStreamBuf.overflow,hchar,if_pos heof]
  rw [List.length_append,List.length_singleton,Nat.add_sub_cancel,List.take_left]

/-- The stream buffer is the collector of lines. -/
theorem run_emitted (b : LogStreamBuf) (ops : List (Op Byte)) :
    (b.run ops).2 = (emitted newline b.buffer ops).map (Record.mk b.level) := by
  induction ops generalizing b with
  | nil => rfl
  | cons op ops ih =>
    rw [LogStreamBuf.run,ih]
    cases op with
    | put ch =>
      rw [LogStreamBuf.step,overflow_put,emitted]
      split_ifs <;> rfl
    | flush =>
      by_cases hbuffer : b.buffer = []
      · rw [LogStreamBuf.step,LogStreamBuf.sync,if_neg (not_not.mpr hbuffer),emitted,if_pos hbuffer,
          hbuffer]
        rfl
      · rw [LogStreamBuf.step,LogStreamBuf.sync,if_pos hbuffer,emitted,if_neg hbuffer]
        rfl

/-- A formatted insertion; a stream with `unitbuf` set is synced after it. -/
def insertion (unitbuf : Bool) (piece : List Byte) : List (Op Byte) :=
  piece.map .put ++ if unitbuf then [.flush] else []

/-- `std::endl`: `put` is followed by a sync as an insertion is, then comes `flush`. -/
def endl (unitbuf : Bool) : List (Op Byte) := insertion unitbuf [newline] ++ [.flush]

/-- `os << pieces[0] << … << std::endl`. -/
def statement (unitbuf : Bool) (pieces : List (List Byte)) : List (Op Byte) :=
  pieces.flatMap (insertion unitbuf) ++ endl unitbuf

theorem emitted_piece {piece held : List Byte} (hpiece : newline ∉ piece) (ops : List (Op Byte)) :
    emitted newline held (piece.map .put ++ ops) = emitted newline (held ++ piece) ops := by
  induction piece generalizing held with
  | nil => rw [List.map_nil,List.nil_append,List.append_nil]
  | cons ch piece ih =>
    obtain ⟨hne,hrest⟩ := not_or.mp (mt List.mem_cons.mpr hpiece)
    rw [List.map_cons,List.cons_append,emitted,if_neg (Ne.symm hne),ih hrest,List.append_assoc,
      List.singleton_append]

theorem emitted_synced {pieces : List (List Byte)} (hpieces : ∀ p ∈ pieces, p ≠ [] ∧ newline ∉ p)
    (ops : List (Op Byte)) :
    emitted newline [] (statement true pieces ++ ops) =
      pieces ++ [[]] ++ emitted newline [] ops := by
  induction pieces with
  | nil => rfl
  | cons p pieces ih =>
    obtain ⟨hp,hrest⟩ := List.forall_mem_cons.mp hpieces
    have hsplit : statement true (p::pieces) ++ ops =
        p.map .put ++ .flush::(statement true pieces ++ ops) := by
      simp [statement,insertion]
    rw [hsplit,emitted_piece hp.2,List.nil_append,emitted,if_neg hp.1,ih hrest]
    rfl

theorem emitted_unsynced {pieces : List (List Byte)} (hpieces : ∀ p ∈ pieces, newline ∉ p)
    (ops : List (Op Byte)) :
    emitted newline [] (statement false pieces ++ ops) =
      pieces.flatten::emitted newline [] ops := by
  have hflat : newline ∉ pieces.flatten := by
    intro hmem
    obtain ⟨p,hp,hin⟩ := List.mem_flatten.mp hmem
    exact hpieces p hp hin
  have hput : insertion false = List.map .put := by
    funext piece
    simp [insertion]
  have hsplit : statement false pieces ++ ops =
      pieces.flatten.map .put ++ .put newline::.flush::ops := by
    simp [statement,endl,hput,List.flatMap_def,List.map_flatten]
  rw [hsplit,emitted_piece hflat,List.nil_append,emitted,if_pos rfl,emitted,if_pos rfl]

theorem cerr_records (level : Level) {stmts : List (List (List Byte))}
    (hstmts : ∀ pieces ∈ stmts, ∀ p ∈ pieces, p ≠ [] ∧ newline ∉ p) :
    records level (stmts.flatMap (statement true)) =
      (stmts.flatMap fun pieces => pieces ++ [[]]).map (Record.mk level) := by
  rw [records,run_emitted]
  congr 1
  induction stmts with
  | nil => rfl
  | cons pieces stmts ih =>
    obtain ⟨hpieces,hrest⟩ := List.forall_mem_cons.mp hstmts
    rw [List.flatMap_cons,List.flatMap_cons,emitted_synced hpieces,ih hrest]

theorem cout_records (level : Level) {stmts : List (List (List Byte))}
    (hstmts : ∀ pieces ∈ stmts, ∀ p ∈ pieces, newline ∉ p) :
    records level (stmts.flatMap (statement false)) =
      stmts.map fun pieces => ⟨level,pieces.flatten⟩ := by
  rw [records,run_emitted]
  induction stmts with
  | nil => rfl
  | cons pieces stmts ih =>
    obtain ⟨hpieces,hrest⟩ := List.forall_mem_cons.mp hstmts
    rw [List.flatMap_cons,emitted_unsynced hpieces,List.map_cons,List.map_cons,ih hrest]

/-- Exactly when the records are the lines that were written: no sync may fall in a line, so an
error message is one record only if it has no text. -/
theorem records_iff (level : Level) :
    (∀ pieces : List (List Byte), (∀ p ∈ pieces, p ≠ [] ∧ newline ∉ p) →
      (records level (statement true pieces) = [⟨level,pieces.flatten⟩] ↔ pieces = [])) ∧
    ∀ ops : List (Op Byte),
      records level ops = (terminated newline (written ops)).map (Record.mk level) ↔
        FlushedAtStart newline [] ops := by
  have hinj : Function.Injective (Record.mk level) := fun _ _ h => congrArg Record.message h
  constructor
  · intro pieces hpieces
    have hone : records level ([pieces].flatMap (statement true)) = _ :=
      cerr_records level (by simpa using hpieces)
    rw [List.flatMap_singleton,List.flatMap_singleton] at hone
    rw [hone]
    constructor
    · intro h
      have hlen := congrArg List.length h
      rw [List.length_map,List.length_append] at hlen
      exact List.length_eq_zero_iff.mp (by simpa using hlen)
    · rintro rfl
      rfl
  · intro ops
    rw [records,run_emitted,(List.map_injective_iff.mpr hinj).eq_iff]
    exact emitted_eq_terminated_iff List.not_mem_nil ops

/-- One message of `wait_cq` makes three records, the last of them empty. -/
theorem opcode_records :
    records .error (statement true [text "Unexpected WC opcode: ",text "1"]) =
      [⟨.error,text "Unexpected WC opcode: "⟩,⟨.error,text "1"⟩,⟨.error,[]⟩] ∧
    records .error (statement true [text "Unexpected WC opcode: ",text "1"]) ≠
      [⟨.error,text "Unexpected WC opcode: 1"⟩] := by
  decide +kernel

theorem records_iff_sample :
    ¬records .error (statement true [text "ibv_poll_cq failed"]) =
      [⟨.error,[text "ibv_poll_cq failed"].flatten⟩] := by
  intro h
  have hnil := ((records_iff .error).1 [text "ibv_poll_cq failed"] (by decide +kernel)).mp h
  exact absurd hnil (by decide)

structure LogItem where
  level : Level
  text : List Byte
  deriving DecidableEq, Repr

def levelToString : Level → String
  | .info => "INFO"
  | .warn => "WARN"
  | .error => "ERROR"

/-- What `log` queues at the time `date`. -/
def logItem (date : List Byte) (r : Record) : LogItem where
  level := r.level
  text := text "[" ++ date ++ text "]" ++ text "[" ++ text (levelToString r.level) ++ text "] " ++
    r.message ++ [newline]

structure Logger where
  toConsole : Bool
  logQueue : List LogItem
  stopFlag : Bool
  working : Bool
  logFile : List Byte
  coutWritten : List Byte
  cerrWritten : List Byte

/-- A pass of `processQueue`: the first item goes to the file and, by its level, to a console. -/
def Logger.processQueue (lg : Logger) : Option Logger :=
  match lg.logQueue with
  | [] => if lg.stopFlag then some { lg with working := false } else none
  | item::rest =>
    let lg := { lg with logQueue := rest, logFile := lg.logFile ++ item.text }
    if lg.toConsole then
      if item.level = .error then some { lg with cerrWritten := lg.cerrWritten ++ item.text }
      else some { lg with coutWritten := lg.coutWritten ++ item.text }
    else some lg

inductive LoggerAction
  | log (date : List Byte) (r : Record)
  | stop
  | work

def loggerMachine (toConsole : Bool) : Machine Logger LoggerAction LogItem where
  init lg := lg = ⟨toConsole,[],false,true,[],[],[]⟩
  step lg
    | .log date r => some ({ lg with logQueue := lg.logQueue ++ [logItem date r] },[logItem date r])
    | .stop => some ({ lg with stopFlag := true },[])
    | .work => if lg.working then lg.processQueue.map (·,[]) else none

def texts (items : List LogItem) : List Byte := items.flatMap LogItem.text

@[simp] theorem texts_append (items items' : List LogItem) :
    texts (items ++ items') = texts items ++ texts items' := List.flatMap_append

@[simp] theorem texts_cons (item : LogItem) (items : List LogItem) :
    texts (item::items) = item.text ++ texts items := rfl

/-- The items that go to one of the consoles. -/
def forConsole (errors : Bool) (items : List LogItem) : List LogItem :=
  items.filter fun item => decide (item.level = .error) == errors

@[simp] theorem forConsole_append (errors : Bool) (items items' : List LogItem) :
    forConsole errors (items ++ items') = forConsole errors items ++ forConsole errors items' :=
  List.filter_append items items'

/-- Written and still queued together are what was logged, in order. -/
structure Logged (lg : Logger) (hist : List LogItem) : Prop where
  file : lg.logFile ++ texts lg.logQueue = texts hist
  err : lg.toConsole = true →
    lg.cerrWritten ++ texts (forConsole true lg.logQueue) = texts (forConsole true hist)
  out : lg.toConsole = true →
    lg.coutWritten ++ texts (forConsole false lg.logQueue) = texts (forConsole false hist)
  working : lg.working = false → lg.stopFlag = true

theorem Logged.processQueue {lg lg' : Logger} {hist : List LogItem} (hl : Logged lg hist)
    (hs : lg.processQueue = some lg') : Logged lg' hist := by
  obtain ⟨hfile,herr,hout,hworking⟩ := hl
  unfold Logger.processQueue at hs
  cases hq : lg.logQueue with
  | nil =>
    rw [hq] at hs hfile herr hout
    dsimp only at hs
    split_ifs at hs with hstop
    obtain rfl := Option.some.inj hs
    exact ⟨hfile,herr,hout,fun _ => hstop⟩
  | cons item rest =>
    rw [hq] at hs hfile herr hout
    have hfile' : lg.logFile ++ item.text ++ texts rest = texts hist := by
      rw [← hfile,texts_cons,List.append_assoc]
    dsimp only at hs
    split_ifs at hs with hconsole hlevel <;> obtain rfl := Option.some.inj hs
    · refine ⟨hfile',?_,?_,hworking⟩
      · simpa [forConsole,hlevel] using herr
      · simpa [forConsole,hlevel] using hout
    · refine ⟨hfile',?_,?_,hworking⟩
      · simpa [forConsole,hlevel] using herr
      · simpa [forConsole,hlevel] using hout
    · exact ⟨hfile',fun h => absurd h hconsole,fun h => absurd h hconsole,hworking⟩

theorem Logged.log {lg : Logger} {hist : List LogItem} (hl : Logged lg hist) (item : LogItem) :
    Logged { lg with logQueue := lg.logQueue ++ [item] } (hist ++ [item]) where
  file := by rw [texts_append,texts_append,← List.append_assoc,hl.file]
  err hc := by rw [forConsole_append,forConsole_append,texts_append,texts_append,← List.append_assoc,
    hl.err hc]
  out hc := by rw [forConsole_append,forConsole_append,texts_append,texts_append,← List.append_assoc,
    hl.out hc]
  working := hl.working

/-- In every run of a logger, whoever logs and whenever the worker gets its turns. -/
theorem run_logged {toConsole : Bool} {lg : Logger} {hist : List LogItem}
    (hr : Run (loggerMachine toConsole) lg hist) : Logged lg hist := by
  induction hr with
  | start hi =>
    subst hi
    exact ⟨rfl,fun _ => rfl,fun _ => rfl,fun h => nomatch h⟩
  | @next s s' h ev a _ _ hs ih =>
    cases a with
    | log date r =>
      obtain ⟨rfl,rfl⟩ := Prod.mk.inj (Option.some.inj hs)
      exact ih.log (logItem date r)
    | stop =>
      obtain ⟨rfl,rfl⟩ := Prod.mk.inj (Option.some.inj hs)
      rw [List.append_nil]
      exact ⟨ih.file,ih.err,ih.out,fun _ => rfl⟩
    | work =>
      change (if s.working then s.processQueue.map (·,[]) else none) = some (s',ev) at hs
      split_ifs at hs
      obtain ⟨lg,hlg,heq⟩ := Option.map_eq_some_iff.mp hs
      obtain ⟨rfl,rfl⟩ := Prod.mk.inj heq
      rw [List.append_nil]
      exact ih.processQueue hlg

theorem work_end {toConsole : Bool} {lg lg' : Logger} {hist : List LogItem}
    (hr : Run (loggerMachine toConsole) lg hist) (hs : lg.processQueue = some lg')
    (hend : lg'.working = false) (hworking : lg.working = true) : lg.logFile = texts hist := by
  have hfile := (run_logged hr).file
  unfold Logger.processQueue at hs
  cases hq : lg.logQueue with
  | nil =>
    rw [hq] at hfile
    simpa [texts] using hfile
  | cons item rest =>
    rw [hq] at hs
    dsimp only at hs
    split_ifs at hs <;> obtain rfl := Option.some.inj hs <;> simp [hworking] at hend

end INA2A
