/-
  Relaunchd.Text — numbers in strings, as `std::stoi` and `std::stoul` read them, and signal
  names (`src/signal_names.h`) with the numbers Linux gives them.
-/

import Mathlib

namespace Relaunchd

/-! ## Numbers -/

def isSpace (c : Char) : Bool := c == ' ' || (9 ≤ c.toNat && c.toNat ≤ 13)

def digits (base : Nat) (ds : List Char) : Nat := ds.foldl (fun v c => base * v + (c.toNat - '0'.toNat)) 0

/-- What both conversions take from a string: leading blanks skipped, a sign, and the
    longest run of digits. -/
def numeral (base : Nat) (s : String) : Bool × List Char :=
  let isDigit := fun c : Char => '0'.toNat ≤ c.toNat && c.toNat < '0'.toNat + base
  match s.toList.dropWhile isSpace with
  | '-' :: r => (true, r.takeWhile isDigit)
  | '+' :: r => (false, r.takeWhile isDigit)
  | r => (false, r.takeWhile isDigit)

/-- `std::stoi(s)`: `none` where it throws. -/
def stoi (s : String) : Option Int :=
  let (neg, ds) := numeral 10 s
  let n : Int := if neg then -(digits 10 ds : Int) else digits 10 ds
  if !ds.isEmpty && -2 ^ 31 ≤ n && n < 2 ^ 31 then some n else none

/-- `std::stoul(s, nullptr, 8)`: `none` where it throws; a negative number wraps around. -/
def stoulOctal (s : String) : Option Nat :=
  let (neg, ds) := numeral 8 s
  let n := digits 8 ds
  if !ds.isEmpty && n < 2 ^ 64 then some (if neg then (2 ^ 64 - n) % 2 ^ 64 else n) else none

/-! ## Signal names -/

def SIGTERM : Int := 15

def SIGKILL : Int := 9

def signalsByName : List (String × Int) :=
  [("SIGABRT", 6), ("SIGALRM", 14), ("SIGBUS", 7), ("SIGCHLD", 17), ("SIGCONT", 18), ("SIGFPE", 8),
   ("SIGHUP", 1), ("SIGILL", 4), ("SIGINT", 2), ("SIGKILL", SIGKILL), ("SIGPIPE", 13), ("SIGPROF", 27),
   ("SIGQUIT", 3), ("SIGSEGV", 11), ("SIGSTOP", 19), ("SIGTSTP", 20), ("SIGSYS", 31), ("SIGTERM", SIGTERM),
   ("SIGTRAP", 5), ("SIGTTIN", 21), ("SIGTTOU", 22), ("SIGURG", 23), ("SIGUSR1", 10), ("SIGUSR2", 12),
   ("SIGVTALRM", 26), ("SIGXCPU", 24), ("SIGXFSZ", 25), ("SIGPOLL", 29), ("SIGIO", 29), ("SIGIOT", 6),
   ("SIGSTKFLT", 16), ("SIGWINCH", 28)]

def getSignalByName (signumOrName : String) : Option Int :=
  let signum := match stoi signumOrName with
    | some n => n
    | none =>
      let buf := String.ofList (signumOrName.toList.map Char.toUpper)
      let buf := if "SIG".toList.isPrefixOf buf.toList then buf else "SIG" ++ buf
      ((signalsByName.find? (·.1 == buf)).map (·.2)).getD (-1)
  if 0 ≤ signum then some signum else none

example : getSignalByName "SIGKILL" = some 9 ∧ getSignalByName "9" = some 9 ∧ getSignalByName "nosuch" = none := by
  decide +kernel

/-! ## Paths -/

def extension (path : String) : String :=
  let name := (path.toList.reverse.takeWhile (· != '/')).reverse
  match name.reverse.dropWhile (· != '.') with
  | '.' :: stem =>
    if stem.isEmpty || name == ['.', '.'] then ""
    else String.ofList ('.' :: (name.reverse.takeWhile (· != '.')).reverse)
  | _ => ""

example : extension "/etc/a.b/job.json" = ".json" ∧ extension "/etc/.json" = "" ∧ extension "job" = "" := by
  decide +kernel

end Relaunchd
