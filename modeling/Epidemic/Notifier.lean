import Epidemic.Peer

namespace Epidemic

inductive Notifier where
  | log
  | book (accepts : Nat → Bool) (attempts : Nat) (delivered : List Key)

namespace Notifier

def upTo (limit : Option Nat) : Notifier :=
  .book (fun n => limit.all (n < ·)) 0 []

def attempts : Notifier → Nat
  | .log => 0
  | .book _ n _ => n

def delivered : Notifier → List Key
  | .log => []
  | .book _ _ ks => ks

def notify (n : Notifier) (k : Key) : Notifier × Bool :=
  match n with
  | .log => (.log, true)
  | .book accepts attempts ks =>
      if accepts attempts then (.book accepts (attempts + 1) (ks ++ [k]), true)
      else (.book accepts (attempts + 1) ks, false)

def notifyAll (n : Notifier) : List Key → Notifier × Nat
  | [] => (n, 0)
  | k :: ks =>
      match n.notify k with
      | (n, true) =>
          let (n, taken) := notifyAll n ks
          (n, taken + 1)
      | (n, false) => (n, 0)

end Notifier

end Epidemic
