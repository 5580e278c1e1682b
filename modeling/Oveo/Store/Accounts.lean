import Oveo.Store.Rows

/-! # Accounts and sessions

The tables `users` and `sessions` of `models.py`.  A time is a number of microseconds. -/

namespace Oveo.Store

open Oveo.Lib

/-- The throttle columns of an account. -/
structure LoginCounters where
  failedLoginCount : Nat
  loginWindowStartedAt : Option Nat
  loginLockedUntil : Option Nat
deriving DecidableEq, Repr

structure User where
  id : Id
  username : Str
  passwordHash : Str
  credentialVersion : Nat
  counters : LoginCounters
deriving DecidableEq, Repr

structure Session where
  id : Id
  tokenHash : List UInt8
  csrfTokenHash : List UInt8
  userId : Id
  credentialVersion : Nat
  expiresAt : Nat
deriving DecidableEq, Repr

structure Accounts where
  users : List User
  sessions : List Session
deriving DecidableEq, Repr

namespace Accounts

def user? (accounts : Accounts) (id : Id) : Option User := accounts.users.find? fun user => user.id == id

def sessionOf? (accounts : Accounts) (tokenHash : List UInt8) : Option Session :=
  accounts.sessions.find? fun session => session.tokenHash == tokenHash

def deleteSession (accounts : Accounts) (id : Id) : Accounts :=
  { accounts with sessions := accounts.sessions.filter fun session => session.id != id }

end Accounts

end Oveo.Store
