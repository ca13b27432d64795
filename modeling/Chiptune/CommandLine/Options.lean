/-!
# Command line options

The player takes the path of a cartridge image and a few options. An option has a long name and
perhaps a letter; its value follows as the next argument, behind `=`, or right behind the letter.
Letters without a value can be joined. No option may be given twice.
-/

namespace Chiptune.CommandLine

/-- What the player was asked to do. -/
structure Options where
  image : String
  /-- Where the song table is. -/
  table : Nat
  /-- List the songs and do nothing else. -/
  list : Bool
  song : Nat
  /-- Where to write the rendered song. -/
  wav : Option String
  loops : Nat
  seconds : Nat
  rate : Nat
  deriving DecidableEq, Repr, Inhabited

/-- The options that take a value. -/
inductive Key
  | table
  | song
  | wav
  | loops
  | seconds
  | rate
  deriving DecidableEq, Repr, Inhabited

/-- What an option's name stands for. -/
inductive Meaning
  | value (key : Key)
  | list
  | help
  | version
  deriving DecidableEq, Repr, Inhabited

def Meaning.ofName? : String → Option Meaning
  | "table" => some (.value .table)
  | "list" => some .list
  | "song" => some (.value .song)
  | "wav" => some (.value .wav)
  | "loops" => some (.value .loops)
  | "seconds" => some (.value .seconds)
  | "rate" => some (.value .rate)
  | "help" => some .help
  | "version" => some .version
  | _ => none

def Meaning.ofLetter? : Char → Option Meaning
  | 't' => some (.value .table)
  | 'l' => some .list
  | 's' => some (.value .song)
  | 'w' => some (.value .wav)
  | 'h' => some .help
  | 'V' => some .version
  | _ => none

/-- Why the player does nothing. -/
inductive Refusal
  /-- The arguments make no sense. -/
  | usage
  | help
  | version
  deriving DecidableEq, Repr, Inhabited

/-! ### Numbers -/

/-- One more than the greatest number of 32 bits. -/
def limit32 : Nat := 0x100000000

/-- One more than the greatest number of 64 bits. -/
def limit64 : Nat := 0x10000000000000000

/-- The value of a digit in a base of at most sixteen. -/
def digit? (base : Nat) (c : Char) : Option Nat :=
  let value :=
    if '0' ≤ c ∧ c ≤ '9' then some (c.toNat - '0'.toNat)
    else if 'a' ≤ c ∧ c ≤ 'f' then some (c.toNat - 'a'.toNat + 10)
    else if 'A' ≤ c ∧ c ≤ 'F' then some (c.toNat - 'A'.toNat + 10)
    else none
  value.filter (· < base)

/-- The number that some digits write, behind `acc`. -/
def digits? (base : Nat) : (acc : Nat) → List Char → Option Nat
  | acc, [] => some acc
  | acc, c :: cs => do digits? base (base * acc + (← digit? base c)) cs

/-- A number of at least one digit below `limit`, perhaps behind a plus sign. -/
def natural? (base limit : Nat) (text : List Char) : Option Nat :=
  let digits := match text with
    | '+' :: rest => rest
    | _ => text
  if digits = [] then none else (digits? base 0 digits).filter (· < limit)

/-- A whole number that must come out between 0 and `limit`; minus zero does. -/
def unsigned? (limit : Nat) (text : List Char) : Option Nat :=
  match text with
  | '-' :: digits => if digits.head? = some '+' then none else natural? 10 1 digits
  | _ => natural? 10 limit text

/-- An address: base 16 behind `0x`, else base 10. -/
def address? (text : List Char) : Option Nat :=
  match text with
  | '0' :: 'x' :: digits => natural? 16 limit32 digits
  | '0' :: 'X' :: digits => natural? 16 limit32 digits
  | _ => natural? 10 limit32 text

/-! ### Arguments -/

/-- The options found so far. -/
structure Draft where
  image : Option String := none
  table : Option Nat := none
  list : Bool := false
  song : Option Nat := none
  wav : Option String := none
  loops : Option Nat := none
  seconds : Option Nat := none
  rate : Option Nat := none
  deriving DecidableEq, Repr, Inhabited

/-- A value for an option that has none yet. -/
def fresh {α : Type} (old new : Option α) : Except Refusal (Option α) :=
  match old, new with
  | none, some value => .ok (some value)
  | _, _ => .error .usage

/-- A path is any text but the empty one. -/
def path? (text : String) : Option String := if text = "" then none else some text

/-- Take the value of an option. -/
def Draft.set (d : Draft) (key : Key) (text : String) : Except Refusal Draft := do
  match key with
  | .table => return { d with table := ← fresh d.table (address? text.toList) }
  | .song => return { d with song := ← fresh d.song (natural? 10 limit64 text.toList) }
  | .wav => return { d with wav := ← fresh d.wav (path? text) }
  | .loops => return { d with loops := ← fresh d.loops (unsigned? limit32 text.toList) }
  | .seconds => return { d with seconds := ← fresh d.seconds (unsigned? limit32 text.toList) }
  | .rate => return { d with rate := ← fresh d.rate (unsigned? limit32 text.toList) }

/-- Take the path of the image. -/
def Draft.setImage (d : Draft) (text : String) : Except Refusal Draft := do
  return { d with image := ← fresh d.image (path? text) }

/-- Take an option that has no value. -/
def Draft.flag (d : Draft) : Meaning → Except Refusal Draft
  | .list => if d.list then .error .usage else .ok { d with list := true }
  | .help => .error .help
  | .version => .error .version
  | .value _ => .error .usage

/-- Where a value can be found: it was given along with the option, or the next argument is it. -/
inductive Pending
  | nothing
  | value (key : Key)
  deriving DecidableEq, Repr, Inhabited

/-- Take a row of letters. The last one may have its value behind it. -/
def Draft.letters (d : Draft) : List Char → Except Refusal (Draft × Pending)
  | [] => .ok (d, .nothing)
  | c :: rest =>
    match Meaning.ofLetter? c with
    | some (.value key) =>
      match rest with
      | [] => .ok (d, .value key)
      | '=' :: text => do return (← d.set key (String.ofList text), .nothing)
      | text => do return (← d.set key (String.ofList text), .nothing)
    | some meaning => do (← d.flag meaning).letters rest
    | none => .error .usage

/-- Take a long name, perhaps with a value behind an equals sign. -/
def Draft.long (d : Draft) (text : List Char) : Except Refusal (Draft × Pending) :=
  let name := String.ofList (text.takeWhile (· ≠ '='))
  match Meaning.ofName? name, text.dropWhile (· ≠ '=') with
  | some (.value key), [] => .ok (d, .value key)
  | some (.value key), _ :: value => do return (← d.set key (String.ofList value), .nothing)
  | some meaning, [] => do return (← d.flag meaning, .nothing)
  | _, _ => .error .usage

/-- Take one argument that is no value of an option. -/
def Draft.argument (d : Draft) (text : String) : Except Refusal (Draft × Pending) :=
  match text.toList with
  | '-' :: '-' :: name => d.long name
  | '-' :: c :: letters => d.letters (c :: letters)
  | _ => do return (← d.setImage text, .nothing)

/-- An argument that starts with a hyphen names options; a hyphen alone is a value. -/
def namesOptions (text : String) : Bool :=
  match text.toList with
  | '-' :: _ :: _ => true
  | _ => false

/-- Take all arguments. Behind a bare `--` none of them is an option any more. -/
def Draft.all (d : Draft) : Pending → List String → Except Refusal Draft
  | .nothing, [] => .ok d
  | .value _, [] => .error .usage
  | .value key, text :: rest => do
    if namesOptions text then .error .usage else (← d.set key text).all .nothing rest
  | .nothing, "--" :: rest => rest.foldlM Draft.setImage d
  | .nothing, text :: rest => do
    let (d, pending) ← d.argument text
    d.all pending rest

/-- The options that the arguments give. The path of the image and the table must be among them. -/
def parse (arguments : List String) : Except Refusal Options := do
  let d ← ({} : Draft).all .nothing arguments
  match d.image, d.table with
  | some image, some table =>
    return {
      image
      table
      list := d.list
      song := d.song.getD 0
      wav := d.wav
      loops := d.loops.getD 1
      seconds := d.seconds.getD 300
      rate := d.rate.getD 44100 }
  | _, _ => .error .usage

end Chiptune.CommandLine
