import Mybox.Php
import Mybox.OrderedMap
import Mybox.Runs

/-! The captive portal of version 3.0: logins, logouts, the sweep of sessions that have run out and the reload of
the policy, on the session files and the accept rules of the portal chain. Users come from the appliance's own
accounts, or have a key that is looked up in the database of a hotspot. -/
namespace Mybox
namespace Portal
open Php

/-- The array a session file holds. -/
structure Session where
  time : ℚ
  name : Str
  timen : ℚ
  deriving DecidableEq

/-- `$_myip.$_mymac` -/
def fileName (ip mac : Str) : Str := ip ++ '.'::mac

/-- Runs of digits with a dot behind each, off the front of a text. -/
def dottedRuns : ℕ → Str → Option (Str × Str)
  | 0, s => some ([],s)
  | n + 1, s =>
    match s.takeWhile digit, s.dropWhile digit with
    | d, '.'::r => if d = [] then none else (dottedRuns n r).map fun p => (d ++ '.'::p.1,p.2)
    | _, _ => none

/-- So many colons with something before, between and after them. -/
def coloned : ℕ → Str → Bool
  | 0, s => s ≠ []
  | n + 1, s =>
    match s.tail.dropWhile (· ≠ ':') with
    | [] => false
    | _::r => coloned n r

def partsAt (s : Str) : Option (Str × Str) :=
  match dottedRuns 4 s with
  | none => none
  | some (d,r) =>
    let t := r.takeWhile fun c => !regexSpace c
    if coloned 5 t then some (d.dropLast,t) else none

def nameParts : Str → Option (Str × Str)
  | [] => none
  | c::s => (partsAt (c::s)).or (nameParts s)

/-- `*.*.*.*.*:*:*:*:*:*` -/
def listed (file : Str) : Bool := file.head? ≠ some '.' && ("....:::::" : Str).isSublist file

/-- What `trim` leaves of a path that ends in the name. -/
def pathTrim (file : Str) : Str := file.rdropWhile trimChar

def base64Digits : Str := "ABCDEFGHIJKLMNOPQRSTUVWXYZabcdefghijklmnopqrstuvwxyz0123456789+/"

def base64Digit (n : ℕ) : Char := base64Digits.getD n '='

def base64Encode : List ℕ → Str
  | a::b::c::s => [base64Digit (a/4),base64Digit (a%4*16 + b/16),base64Digit (b%16*4 + c/64),base64Digit (c%64)] ++
      base64Encode s
  | [a,b] => [base64Digit (a/4),base64Digit (a%4*16 + b/16),base64Digit (b%16*4),'=']
  | [a] => [base64Digit (a/4),base64Digit (a%4*16),'=','=']
  | [] => []

def base64Bytes : List ℕ → List ℕ
  | a::b::c::d::s => [a*4 + b/16,b%16*16 + c/4,c%4*64 + d] ++ base64Bytes s
  | _ => []

/-- `base64_decode`, for whole groups of digits; other characters are passed over. -/
def base64Decode (s : Str) : List ℕ := base64Bytes ((s.filter (· ∈ base64Digits)).map fun c => base64Digits.idxOf c)

def epad : Str := "!5047a88a7963275e43790ee796dcb7ec!"

def strEncrypt (s : Str) : Str := base64Encode (s.mapIdx fun i c => c.toNat ^^^ (base64Decode epad).getD i 0)

/-- A row of `wifi_mgr`. -/
structure WifiRow where
  id : Str
  wifiKey : Str
  wifiUnit : Str
  wifiQty : Str
  startTime : Str
  endTime : Str
  stat : Str
  deriving DecidableEq

/-- What the portal rests on: how `iptables` reads an address and a hardware address, the answers to queries of the
two databases, and the configuration. -/
structure Setting (ρ : Type) where
  rule : Str → Str → Option ρ
  rows : Str → List Str
  wifiRows : Str → List WifiRow
  /-- At some time. -/
  strtotime : ℚ → Str → ℚ
  htimeout : Str
  intouch : Bool
  /-- The portal is on, for some network. -/
  active : Bool

inductive Access
  | A
  | D
  deriving DecidableEq

/-- A call of `do_access`. -/
structure Call where
  opt : Access
  ip : Str
  mac : Str
  deriving DecidableEq

structure World (ρ : Type) where
  /-- `/var/cache/captive` -/
  files : OrdMap Str Session
  /-- The accept rules of ACL1004-00. -/
  chain : List ρ
  calls : List Call

/-- A POST request: the fields, as the script gets them, and where it comes from. -/
structure Request where
  doSave : Option Str
  serial : Option Str
  justLogin : Option Str
  mymac : Option Str
  myip : Option Str
  username : Option Str
  wifikey : Option Str
  pass : Option Str
  forceLogout : Option Str
  xForwardedFor : Option Str
  clientIp : Option Str
  remoteAddr : Str
  deriving DecidableEq

variable {ρ : Type} [DecidableEq ρ] (g : Setting ρ)

def Access.letter : Access → Str
  | .A => "A"
  | .D => "D"

/-- The command that `do_access` has the shell run; its output goes nowhere. -/
def Call.command (k : Call) : Str :=
  "/bin/iptables -t mangle -" ++ k.opt.letter ++ " ACL1004-00 -s " ++ k.ip ++ " " ++
    (if k.mac ≠ [] then "-m mac --mac-source " ++ k.mac else []) ++ " -j MARK --set-mark 4294967295"

/-- `do_access`, with whether it succeeds. -/
def doAccess (ip mac : Str) (opt : Access) (w : World ρ) : Bool × World ρ :=
  let w := { w with calls := w.calls ++ [⟨opt,ip,mac⟩] }
  match g.rule ip mac, opt with
  | none, _ => (false,w)
  | some r, .A => (true,{ w with chain := w.chain ++ [r] })
  | some r, .D => (r ∈ w.chain,{ w with chain := w.chain.erase r })

def unlink (file : Str) (w : World ρ) : World ρ := { w with files := w.files.erase file }

/-- A session as the loops see it: its path, and the two parts of its name. -/
structure Entry where
  file : Str
  ip : Str
  mac : Str
  deriving DecidableEq

/-- `mybox_dir2array` of the session files, as far as their names are understood. -/
def entries (files : OrdMap Str Session) : List Entry :=
  ((files.sortKeys nameLe).keys.filter listed).filterMap fun n =>
    (nameParts (pathTrim n)).map fun p => ⟨pathTrim n,p.1,p.2⟩

/-- What `chk_captive_user_islogin` looks for: a session of the user with another address and another hardware
address. -/
def elsewhere (files : OrdMap Str Session) (user ip mac : Str) (e : Entry) : Bool :=
  match files.get? e.file with
  | some s => looseEq s.name user && (!looseEq e.ip ip && !looseEq e.mac mac)
  | none => false

def isLogin (files : OrdMap Str Session) (user ip mac : Str) : Option Entry :=
  if user = [] then none else (entries files).find? (elsewhere files user ip mac)

/-- `mybox_get_client_ip` -/
def clientAddress (q : Request) : Str :=
  let a := (q.xForwardedFor.or q.clientIp).getD q.remoteAddr
  if ',' ∈ a then trim (a.takeWhile (· ≠ ',')) else a

def accountQuery (user passx : Str) : Str :=
  "select name from auth_user where stat='1' and name='" ++ user ++ "' and passwd='" ++ passx ++ "'"

def account (q : Request) : Option Str :=
  match g.rows (accountQuery (q.username.getD []) (strEncrypt (q.pass.getD []))) with
  | [] => none
  | n::_ => if n ≠ [] then some n else none

def htimeout : ℚ := if g.htimeout = [] ∨ toNumber g.htimeout = 0 then 1440 else toNumber g.htimeout

/-- The answer is that the user is logged in elsewhere. -/
def Request.refused (q : Request) (files : OrdMap Str Session) : Bool :=
  (isLogin files (q.username.getD []) (q.myip.getD []) (q.mymac.getD [])).isSome &&
    (q.forceLogout = none || looseEq (q.forceLogout.getD []) "0")

def Request.displaced (q : Request) (files : OrdMap Str Session) : Option Entry :=
  if q.forceLogout.isSome ∧ looseEq (q.forceLogout.getD []) "1" = true then
    isLogin files (q.username.getD []) (q.myip.getD []) (q.mymac.getD [])
  else none

def Request.own (q : Request) : Bool := looseEq (q.myip.getD []) (clientAddress q)

def displace (q : Request) (w : World ρ) : World ρ :=
  match q.displaced w.files with
  | none => w
  | some e => unlink (fileName e.ip e.mac) (doAccess g e.ip e.mac .D w).2

def grant (t : ℚ) (ip mac name : Str) (w : World ρ) : World ρ :=
  let w := (doAccess g ip mac .D w).2
  match doAccess g ip mac .A w with
  | (true,w) => { w with files := w.files.set (fileName ip mac) ⟨t + 60*htimeout g,name,t⟩ }
  | (false,w) => w

/-- The front of a login; what follows depends on where the users come from. -/
def enter (q : Request) (found : World ρ → World ρ) (w : World ρ) : World ρ :=
  if q.refused w.files = true then w
  else if q.own = true then found (displace g q w)
  else w

def login (t : ℚ) (q : Request) (w : World ρ) : World ρ :=
  enter g q (fun w =>
    match account g q with
    | some name => grant g t (q.myip.getD []) (q.mymac.getD []) name w
    | none => w) w

def logout (q : Request) (w : World ρ) : World ρ :=
  if q.own = true then
    unlink (fileName (q.myip.getD []) (q.mymac.getD [])) (doAccess g (q.myip.getD []) (q.mymac.getD []) .D w).2
  else w

def Request.complete (q : Request) (t : ℚ) : Bool :=
  q.doSave.any (fun s => toNumber s = 1) && q.serial.any (fun s => toNumber s < t)

def Request.wants (q : Request) (n : ℚ) : Bool :=
  q.justLogin.any (fun s => toNumber s = n) && q.mymac.any (· ≠ []) && q.myip.any (· ≠ [])

/-- What the script does with a form, given the login. -/
def page (login : World ρ → World ρ) (t : ℚ) (q : Request) (w : World ρ) : World ρ :=
  if q.complete t = true then
    let w := if q.wants 1 = true then login w else w
    if q.wants 2 = true then logout g q w else w
  else w

/-- The part of `index.exh` for the appliance's own users. -/
def serve (t : ℚ) (q : Request) (w : World ρ) : World ρ := page g (login g t q) t q w

def keyQuery (key : Str) : Str := "select * from wifi_mgr where wifi_key='" ++ key ++ "' and stat='1'"

/-- The key is checked in the place of the user's name. -/
def Request.withKey (q : Request) : Request := { q with username := q.wifikey }

/-- The account has a time at which it ends, and that time is over. -/
def WifiRow.over (r : WifiRow) (t : ℚ) : Bool := toNumber r.endTime ≠ -1 && toNumber r.endTime < t

def keyTime (t : ℚ) (r : WifiRow) : ℚ :=
  if toNumber r.endTime ≠ -1 then toNumber r.endTime
  else if looseEq r.startTime "-1" = true then g.strtotime t (r.wifiQty ++ ' '::r.wifiUnit) + 300
  else t + 60*htimeout g

/-- The end of a login, once the row of the key is known. -/
def keyGrant (t : ℚ) (ip mac : Str) (r : WifiRow) (w : World ρ) : World ρ :=
  if r.id = [] then w
  else if r.over t = true then (doAccess g ip mac .D w).2
  else if r.wifiKey = [] then w
  else
    let w := (doAccess g ip mac .D w).2
    match doAccess g ip mac .A w with
    | (true,w) => { w with files := w.files.set (fileName ip mac) ⟨keyTime g t r,r.wifiKey,t⟩ }
    | (false,w) => w

def keyLogin (t : ℚ) (q : Request) (w : World ρ) : World ρ :=
  enter g q.withKey (fun w =>
    match (g.wifiRows (keyQuery (q.wifikey.getD []))).getLast? with
    | some r => keyGrant g t (q.myip.getD []) (q.mymac.getD []) r w
    | none => w) w

def keyServe (t : ℚ) (q : Request) (w : World ρ) : World ρ := page g (keyLogin g t q) t q w

/-- `index.exh` -/
def index (t : ℚ) (q : Request) (w : World ρ) : World ρ :=
  if g.intouch = true then keyServe g t q w else serve g t q w

def expired (files : OrdMap Str Session) (t : ℚ) (file : Str) : Bool :=
  match files.get? file with
  | some s => s.time < t
  | none => true

/-- `chk_captive_timeout` -/
def sweep (t : ℚ) (w : World ρ) : World ρ :=
  (entries w.files).foldl (fun w e =>
    if expired w.files t e.file = true then unlink e.file (doAccess g e.ip e.mac .D w).2 else w) w

/-- The loop of `do_policy_captive`: the files that are left, and the rules written. -/
def reloadLoop (t : ℚ) : List Entry → OrdMap Str Session × List (Option ρ) → OrdMap Str Session × List (Option ρ)
  | [], r => r
  | e::es, (files,rules) =>
    if expired files t e.file = true then reloadLoop t es (files.erase e.file,rules)
    else reloadLoop t es (files,rules ++ [g.rule e.ip e.mac])

/-- `do_policy_captive`: the chain is emptied and filled again, unless a rule cannot be read. -/
def doPolicyCaptive (t : ℚ) (w : World ρ) : World ρ :=
  if g.active = true then
    let r := reloadLoop g t (entries w.files) (w.files,[])
    { w with files := r.1, chain := if r.2.all Option.isSome then r.2.reduceOption else w.chain }
  else w

inductive Op
  | request (t : ℚ) (q : Request)
  | sweep (t : ℚ)
  | reload (t : ℚ)

def run (w : World ρ) : Op → World ρ
  | .request t q => serve g t q w
  | .sweep t => Portal.sweep g t w
  | .reload t => doPolicyCaptive g t w

end Portal
end Mybox
