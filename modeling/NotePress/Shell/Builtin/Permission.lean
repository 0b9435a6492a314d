import NotePress.Shell.Builtin.Argument
import NotePress.Shell.Printing

/-!
# Permissions and limits

The permissions that new files do not get, as digits or as changes of letters, and the limits of a
process.
-/

namespace NotePress.Shell.Builtin

/-! ### Permissions and limits -/

/-- An octal number in four digits. -/
def fourDigits (n : Nat) : Text :=
  let digits := Nat.toDigits 8 n
  List.replicate (4 - digits.length) '0' ++ digits

/-- The permissions that a mask leaves, for the three kinds of users. -/
def permissions (mask : Nat) : Text :=
  let kind := fun (c : Char) (bits : Nat) =>
    let letter := fun (c : Char) (bit : Nat) => if (bits / bit) % 2 = 0 then [c] else []
    [c, '='] ++ letter 'r' 4 ++ letter 'w' 2 ++ letter 'x' 1
  kind 'u' (mask / 64) ++ ',' :: kind 'g' (mask / 8) ++ ',' :: kind 'o' mask

/-- The permissions that letters name: those of a kind of users among those that there are, or
single ones. -/
def permissionBits (permissions : Nat) (c : Char) : Option Nat :=
  match c with
  | 'r' => some 4
  | 'w' => some 2
  | 'x' => some 1
  | 'u' => some (permissions / 64 % 8)
  | 'g' => some (permissions / 8 % 8)
  | 'o' => some (permissions % 8)
  | 'X' => some (if permissions &&& 0o111 = 0 then 0 else 1)
  | 's' => some 0
  | _ => none

/-- The kinds of users that a letter names, as the lowest bits of their permissions. -/
def userBits (c : Char) : Option Nat :=
  match c with
  | 'a' => some 0o111
  | 'u' => some 0o100
  | 'g' => some 0o010
  | 'o' => some 0o001
  | _ => none

/-- Changes permissions, of which some were there before, as a text says: kinds of users, then signs
with letters behind them, and more behind commas. None if it is not understood. -/
def changePermissions (before : Nat) : Nat → (users permissions : Nat) → Text → Option Nat
  | 0, _, _, _ => none
  | _ + 1, _, permissions, [] => some permissions
  | fuel + 1, users, permissions, t =>
    let named := t.takeWhile fun c => (userBits c).isSome
    let users := (named.filterMap userBits).foldl (· ||| ·) users
    let users := if users = 0 then 0o111 else users
    match t.drop named.length with
    | [] => some permissions
    | sign :: rest =>
      let letters := rest.takeWhile fun c => (permissionBits before c).isSome
      let bits := (letters.filterMap (permissionBits before)).foldl (· ||| ·) 0
      let bits := bits * users
      let changed? := match sign with
        | '=' => some (bits ||| (permissions &&& (0o777 ^^^ (users * 7))))
        | '+' => some (permissions ||| bits)
        | '-' => some (permissions &&& (0o777 ^^^ bits))
        | _ => none
      match changed?, rest.drop letters.length with
      | some changed, ',' :: rest => changePermissions before fuel 0 changed rest
      | some changed, [] => some changed
      | some changed, next :: rest =>
        if next = '=' ∨ next = '+' ∨ next = '-' then
          changePermissions before fuel users changed (next :: rest)
        else none
      | none, _ => none

/-- Shows the permissions that new files do not get, or sets them. -/
def umask (args : List Text) : Action Nat := do
  let (found, rest) ← options "S" "" args
  let mask := (← get).mask
  match rest with
  | [] => Action.say ((if found = [] then fourDigits mask else permissions mask) ++ ['\n'])
  | t :: _ =>
    if t.head?.any Char.isDigit then
      if t.all Printing.isOctal then
        modify fun s => { s with mask := Printing.readOctal t % 512 }
        return 0
      else Action.fail ("Illegal number: ".toList ++ t)
    else
      let allowed := 0o777 - mask
      match changePermissions allowed (t.length + 1) 0 allowed t with
      | some allowed =>
        modify fun s => { s with mask := 0o777 - allowed }
        return 0
      | none => Action.fail ("Illegal mode: ".toList ++ t)

/-- A limit as it is shown. -/
def limitShown (unit : Nat) (limit : Option Nat) : Text :=
  (match limit with
    | some n => Text.ofNat (n / unit)
    | none => "unlimited".toList) ++ ['\n']

/-- Shows a limit of the process, or sets it. -/
def ulimit (args : List Text) : Action Nat := do
  let (found, rest) ← options "HSatfdscmlpnvwr" "" args
  let letters := found.map (·.1)
  let kind := (letters.filter fun c => c = 'H' ∨ c = 'S').getLast?
  let what := ((letters.filter fun c => c ∉ "HSa".toList).getLast?).getD 'f'
  let limits := (← get).limits
  let limitOf := fun (c : Char) => (limits.lookup c).getD .unlimited
  let chosen := fun (l : Limit) => if kind = some 'H' then l.hard else l.soft
  let unit := ((resources.find? fun r => r.letter = what).map (·.unit)).getD 1
  match rest with
  | [] =>
    if letters.contains 'a' then
      let line := fun (r : Resource) =>
        let name := r.name.toList
        name ++ List.replicate (21 - name.length) ' ' ++
          limitShown r.unit (chosen (limitOf r.letter))
      Action.say (resources.flatMap line)
    else Action.say (limitShown unit (chosen (limitOf what)))
  | t :: more =>
    if letters.contains 'a' ∨ more ≠ [] then Action.fail "too many arguments".toList
    else
      let value ← if t = "unlimited".toList then pure none
        else if t.all Char.isDigit then pure (some ((readNat? t).getD 0 * unit))
        else Action.fail "bad number".toList
      match (limitOf what).set (kind ≠ some 'H') (kind ≠ some 'S') value with
      | .ok limit =>
        modify fun s => { s with limits := (what, limit) :: s.limits.filter (·.1 ≠ what) }
        return 0
      | .error e => Action.fail ("error setting limit (".toList ++ e.message ++ [')'])

end NotePress.Shell.Builtin
