import ClassScript.Number.Text
import ClassScript.Program.Tree

/-! # Outlines of programs

A tree is written in parentheses with the operation first, and a program with one line for each of
its statements.
-/
namespace ClassScript

def Constant.outline : Constant → String
  | .nil => "nil"
  | .bool true => "true"
  | .bool false => "false"
  | .number x => x.text
  | .string s => "\"" ++ s ++ "\""

mutual

def Expr.outline : Expr → String
  | .constant c => c.outline
  | .grouping e => "(group " ++ e.outline ++ ")"
  | .unary op e => "(" ++ op.lexeme ++ " " ++ e.outline ++ ")"
  | .binary l op r => "(" ++ op.lexeme ++ " " ++ l.outline ++ " " ++ r.outline ++ ")"
  | .logical l op r => "(" ++ op.lexeme ++ " " ++ l.outline ++ " " ++ r.outline ++ ")"
  | .variable x => x.name.lexeme
  | .assign x e => "(= " ++ x.name.lexeme ++ " " ++ e.outline ++ ")"
  | .call f _ es => "(call " ++ f.outline ++ Expr.outlineTail es ++ ")"
  | .get e name => "(. " ++ e.outline ++ " " ++ name.lexeme ++ ")"
  | .set e name v => "(.= " ++ e.outline ++ " " ++ name.lexeme ++ " " ++ v.outline ++ ")"
  | .this _ => "this"
  | .super _ method => "(super " ++ method.lexeme ++ ")"

/-- Each expression with a blank before it. -/
def Expr.outlineTail : List Expr → String
  | [] => ""
  | e :: es => " " ++ e.outline ++ Expr.outlineTail es

end

mutual

def Stmt.outline : Stmt → String
  | .expression e => "(; " ++ e.outline ++ ")"
  | .print e => "(print " ++ e.outline ++ ")"
  | .var name none => "(var " ++ name.lexeme ++ ")"
  | .var name (some e) => "(var " ++ name.lexeme ++ " " ++ e.outline ++ ")"
  | .block body => "(block" ++ Stmt.outlineTail body ++ ")"
  | .branch c s none => "(if " ++ c.outline ++ " " ++ s.outline ++ ")"
  | .branch c s (some t) => "(if " ++ c.outline ++ " " ++ s.outline ++ " " ++ t.outline ++ ")"
  | .loop c s => "(while " ++ c.outline ++ " " ++ s.outline ++ ")"
  | .function d => d.outline "fun"
  | .cls name superclass methods =>
    "(class " ++ name.lexeme
      ++ (match superclass with
        | none => ""
        | some s => " < " ++ s.name.lexeme)
      ++ FunctionDecl.outlineTail methods ++ ")"
  | .ret _ none => "(return)"
  | .ret _ (some e) => "(return " ++ e.outline ++ ")"

/-- Each statement with a blank before it. -/
def Stmt.outlineTail : List Stmt → String
  | [] => ""
  | s :: ss => " " ++ s.outline ++ Stmt.outlineTail ss

/-- A function under the word that introduces it. -/
def FunctionDecl.outline (word : String) : FunctionDecl → String
  | .mk name parameters body =>
    "(" ++ word ++ " " ++ name.lexeme
      ++ "(" ++ String.intercalate " " (parameters.map Token.lexeme) ++ ")"
      ++ Stmt.outlineTail body ++ ")"

def FunctionDecl.outlineTail : List FunctionDecl → String
  | [] => ""
  | d :: ds => " " ++ d.outline "method" ++ FunctionDecl.outlineTail ds

end

namespace Program

def outline (program : Program) : String := String.intercalate "\n" (program.map Stmt.outline)

end Program

end ClassScript
