import Waterdisco.Route.RuleChecks

/-!
# The text of an OpenVPN configuration

A line is split into parameters the way OpenVPN does it: by white space, with quotes and
backslashes, up to a comment that starts where a parameter would.  A line that ends in a
backslash goes on in the next one.  `<tag>` opens an inline block that ends with `</tag>`
or with the text.

    remote vpn.example.org 443 tcp          a directive
    <connection> … </connection>             an inline block
-/

namespace Waterdisco.Ovpn

open Routing (toInt)

/-! ## Lines -/

/-- The parameters of what is left of a line, inside a quote or not, with one begun or not. -/
def tokenizeFrom (quote : Option Char) (inToken : Bool) (token : List Char) : List Char → List String
  | [] => if inToken then [String.ofList token] else []
  | ch :: rest =>
    match quote with
    | some q =>
      if ch = q then tokenizeFrom none inToken token rest
      else
        match rest with
        | next :: rest' =>
          if ch = '\\' ∧ q = '"' ∧ (next = '"' ∨ next = '\\') then tokenizeFrom quote inToken (token ++ [next]) rest'
          else tokenizeFrom quote inToken (token ++ [ch]) (next :: rest')
        | [] => tokenizeFrom quote inToken (token ++ [ch]) []
    | none =>
      if Scan.isSpace ch then
        if inToken then String.ofList token :: tokenizeFrom none false [] rest else tokenizeFrom none false token rest
      else if inToken = false ∧ (ch = '#' ∨ ch = ';') then []
      else if ch = '"' ∨ ch = '\'' then tokenizeFrom (some ch) true token rest
      else
        match rest with
        | next :: rest' =>
          if ch = '\\' then tokenizeFrom none true (token ++ [next]) rest'
          else tokenizeFrom none true (token ++ [ch]) (next :: rest')
        | [] => tokenizeFrom none true (token ++ [ch]) []

def vpnfiTokenize (line : List Char) : List String := tokenizeFrom none false [] line

example : vpnfiTokenize "remote \"a b\" c\\ d # end".toList = ["remote", "a b", "c d"] := by decide +kernel

/-! ## Directives -/

/-- A line of parameters, or an inline block. -/
structure Directive where
  args : List String := []
  inlineTag : String := ""
  inlineBody : List String := []
deriving DecidableEq

def splitLines (text : List Char) : List (List Char) := text.splitOn '\n'

/-- A line without its carriage returns and the white space around it. -/
def cleaned (line : List Char) : List Char := Scan.trimmed (line.filter (fun c => c ≠ '\r'))

def opensBlock (line : List Char) : Bool :=
  decide (2 < line.length) && line.head? == some '<' && line.getLast? == some '>' && !("</".toList.isPrefixOf line)

/-- The name in `<name>`; it may be empty. -/
def blockTag (line : List Char) : List Char := Scan.trimmed line.tail.dropLast

def closingLine (tag : List Char) : List Char := "</".toList ++ tag ++ [ '>' ]

/-- Without the empty lines in front and at the end. -/
def blockBody (lines : List (List Char)) : List String :=
  (((lines.dropWhile List.isEmpty).reverse.dropWhile List.isEmpty).reverse).map String.ofList

def blockDirective (tag : List Char) (lines : List (List Char)) : Directive where
  inlineTag := String.ofList tag
  inlineBody := blockBody lines

def lineDirective (line : List Char) : List Directive :=
  if vpnfiTokenize line = [] then [] else [{ args := vpnfiTokenize line }]

def goesOn (line : List Char) : Bool := line.getLast? == some '\\' && !(line.dropLast.getLast? == some '\\')

/-- The lines that are left, with a block open or with the start of a line that goes on. -/
def readLines (block : Option (List Char × List (List Char))) (pending : List Char) : List (List Char) → List Directive
  | [] =>
    match block with
    | some (tag, lines) => [blockDirective tag lines]
    | none => if pending = [] then [] else lineDirective pending
  | line :: rest =>
    match block with
    | some (tag, lines) =>
      if cleaned line = closingLine tag then blockDirective tag lines :: readLines none [] rest
      else readLines (some (tag, lines ++ [cleaned line])) [] rest
    | none =>
      if pending = [] ∧ opensBlock (cleaned line) = true then readLines (some (blockTag (cleaned line), [])) [] rest
      else if goesOn (cleaned line) then readLines none (pending ++ (cleaned line).dropLast ++ [' ']) rest
      else lineDirective (pending ++ cleaned line) ++ readLines none [] rest

def vpnfiReadOvpnDirectives (body : List Char) : List Directive := readLines none [] (splitLines body)

example : vpnfiReadOvpnDirectives "dev \\\n tun\n<ca>\n\nX\n</ca>".toList =
    [{ args := ["dev", "tun"] }, { inlineTag := "ca", inlineBody := ["X"] }] := by decide +kernel

/-! ## Servers -/

structure Remote where
  host : String := ""
  port : Int := 0
  network : String := ""
deriving DecidableEq

/-- The transports of a client; empty for any other text. -/
def vpnfiNetwork (toLower : String → String) (proto : String) : String :=
  let value := toLower proto
  if value ∈ ["udp", "udp4", "udp6", "tcp", "tcp4", "tcp6"] then value
  else if value = "tcp-client" then "tcp"
  else if value = "tcp4-client" then "tcp4"
  else if value = "tcp6-client" then "tcp6"
  else ""

/-- Port and transport come in any order behind the host. -/
def Remote.take (toLower : String → String) (remote : Remote) (arg : String) : Remote :=
  if 0 < toInt arg then { remote with port := toInt arg }
  else if vpnfiNetwork toLower arg ≠ "" then { remote with network := vpnfiNetwork toLower arg }
  else remote

def vpnfiParseRemote (toLower : String → String) (args : List String) : Remote :=
  match args with
  | _ :: host :: rest => (rest.take 2).foldl (Remote.take toLower) { host := host }
  | _ => {}

/-- A `<connection>` block while it is read. -/
structure Connection where
  remote : Remote := {}
  network : String := ""
  port : Int := 0

def Connection.read (toLower : String → String) (block : Connection) (line : String) : Connection :=
  match vpnfiTokenize line.toList with
  | [] => block
  | key :: values =>
    if key = "remote" then { block with remote := vpnfiParseRemote toLower (key :: values) }
    else if key = "proto" ∧ values ≠ [] then { block with network := vpnfiNetwork toLower (values.headD "") }
    else if (key = "port" ∨ key = "rport") ∧ values ≠ [] then { block with port := toInt (values.headD "") }
    else block

def readConnection (toLower : String → String) (body : List String) : Connection :=
  body.foldl (Connection.read toLower) {}

/-- What the remote leaves open is taken from the block. -/
def Connection.server (block : Connection) : Remote :=
  { block.remote with
    network := if block.remote.network = "" then block.network else block.remote.network
    port := if block.remote.port = 0 then block.port else block.remote.port }

end Waterdisco.Ovpn
