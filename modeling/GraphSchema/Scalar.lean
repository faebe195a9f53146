namespace GraphSchema

inductive Scalar
  | id | string | int | float | boolean | date | dateTime | email | ipAddress | timestamp
  | url | json | phoneNumber | decimal | bigInt
  deriving DecidableEq, Inhabited

namespace Scalar

def all : List Scalar :=
  [id, string, int, float, boolean, date, dateTime, email, ipAddress, timestamp, url, json,
    phoneNumber, decimal, bigInt]

def name : Scalar → String
  | id => "ID"
  | string => "String"
  | int => "Int"
  | float => "Float"
  | boolean => "Boolean"
  | date => "Date"
  | dateTime => "DateTime"
  | email => "Email"
  | ipAddress => "IPAddress"
  | timestamp => "Timestamp"
  | url => "URL"
  | json => "JSON"
  | phoneNumber => "PhoneNumber"
  | decimal => "Decimal"
  | bigInt => "BigInt"

def ofName? (n : String) : Option Scalar := all.find? (·.name == n)

theorem ofName?_name (s : Scalar) : ofName? s.name = some s := by cases s <;> decide

def isString : Scalar → Bool
  | id | string | email | url | ipAddress | phoneNumber => true
  | _ => false

end Scalar

end GraphSchema
