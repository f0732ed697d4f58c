import ProcessorBench.Process.Machine

/-!
# Options of utilities

Most utilities take options of one letter in front of their operands, several of them in one argument if
need be: `rm -rf dir`. Two hyphens end the options.
-/

namespace ProcessorBench

/-- The arguments of a utility, taken apart. -/
structure Options where
  /-- The letters that are given, with their values. -/
  letters : List (Char × String) := []
  operands : List String := []

namespace Options

/-- Whether a letter is given. -/
def has (o : Options) (letter : Char) : Bool := o.letters.any (·.1 = letter)

/-- The last value that is given for a letter. -/
def value? (o : Options) (letter : Char) : Option String :=
  (o.letters.reverse.find? (·.1 = letter)).map (·.2)

/-- The values that are given for a letter. -/
def values (o : Options) (letter : Char) : List String :=
  (o.letters.filter (·.1 = letter)).map (·.2)

/-- Take the letters of one argument apart. The result is the letters, and one at the end whose value is the
next argument. -/
def ofLetters (flags valued attached : String) :
    List Char → Except Char (List (Char × String) × Option Char)
  | [] => .ok ([], none)
  | c :: rest =>
    if attached.contains c then .ok ([(c, String.ofList rest)], none)
    else if valued.contains c then
      if rest = [] then .ok ([], some c) else .ok ([(c, String.ofList rest)], none)
    else if flags.contains c then
      (ofLetters flags valued attached rest).map fun (letters, last) => ((c, "") :: letters, last)
    else .error c

/-- Take arguments apart, given the letters of the options without a value, of those with one, and of those
whose value is what stands right behind them. Operands can stand between options. A letter that is no option,
or has no value, is the result instead. -/
def parse (flags valued attached : String) : List String → Except Char Options
  | [] => .ok {}
  | argument :: rest =>
    match argument.toList with
    | ['-', '-'] => .ok { operands := rest }
    | '-' :: c :: cluster =>
      match ofLetters flags valued attached (c :: cluster) with
      | .error letter => .error letter
      | .ok (letters, none) =>
        (parse flags valued attached rest).map fun o => { o with letters := letters ++ o.letters }
      | .ok (letters, some last) =>
        match rest with
        | [] => .error last
        | value :: rest =>
          (parse flags valued attached rest).map fun o =>
            { o with letters := letters ++ (last, value) :: o.letters }
    | _ => (parse flags valued attached rest).map fun o => { o with operands := argument :: o.operands }

/-- Complain, and point to the help that the utility gives. -/
def complainWithHelp (text : String) : ProcessStep Unit := do
  Process.complain text
  let name := (← read).name
  Process.write Process.standardError
    (Utf8.encode ("Try '" ++ name ++ " --help' for more information.\n"))

/-- Go on with the options of a process, unless they are invalid. -/
def withAttachedOptions (flags valued attached : String) (step : Options → ProcessStep Status) :
    ProcessStep Status := do
  match parse flags valued attached (← read).arguments with
  | .ok options => step options
  | .error letter =>
    if valued.contains letter then
      complainWithHelp ("option requires an argument -- '" ++ String.singleton letter ++ "'")
    else complainWithHelp ("invalid option -- '" ++ String.singleton letter ++ "'")
    return 1

/-- Go on with the options of a process, none of which has a value that must stand right behind it. -/
def withOptions (flags valued : String) (step : Options → ProcessStep Status) : ProcessStep Status :=
  withAttachedOptions flags valued "" step

end Options

end ProcessorBench
