/-!
# Fixed texts of the command line

What the program says about itself: its name and version, how it is used, and
the help of the command line and of the dialogue.

Each text is a list of lines; `ofLines` ends every line.
-/

namespace JsonScript.Texts

/-- Lines as text. -/
def ofLines (lines : List String) : String := String.join (lines.map (· ++ "\n"))

/-- The name of the language. -/
def languageName : String := "JAYSON"

/-- The version of the program. -/
def version : String := "0.1.0"

/-- How the name of a document file ends. -/
def extension : String := ".jayson"

/-- How the program is to be called. -/
def usage : String := ofLines
  ["Usage: jayson <file.jayson> [--max-steps N] [--max-depth N]",
    "       jayson help"]

/-- The help of the command line. -/
def help : String := ofLines
  ["JAYSON",
    "A scripting language written as JSON",
    "Version 0.1.0",
    "",
    "USAGE:",
    "  jayson <file.jayson>           Execute a JAYSON file",
    "  jayson run <file.jayson>       Execute a JAYSON file",
    "  jayson repl                    Start interactive REPL",
    "  jayson help                    Show this help message",
    "  jayson version                 Show version",
    "",
    "OPTIONS:",
    "  --max-steps N                  Abort after N executed operations",
    "  --max-depth N                  Limit nested function calls to N",
    "",
    "OPERATIONS:",
    "  \x7b\"declare\": \x7b\"var\": \"x\", \"value\": 5\x7d\x7d        Bind a variable",
    "  \x7b\"assign\": \x7b\"var\": \"x\", \"value\": 10\x7d\x7d        Rebind a declared variable",
    "  \x7b\"add\": \x7b\"var\": \"x\", \"value\": 1\x7d\x7d            Update in place",
    "  \x7b\"print\": [\"x\", \x7b\"add\": [\"x\", 1]\x7d]\x7d         Print values",
    "  \x7b\"loop\": \x7b\"times\": 3, \"body\": [...]\x7d\x7d          Repeat",
    "  \x7b\"call\": \x7b\"function\": \"f\", \"arguments\": [1]\x7d\x7d  Call a function"]

/-- What a dialogue starts with. -/
def banner : String := ofLines
  ["JAYSON 0.1.0 - one JSON operation per line",
    "Type exit to exit, help for help",
    ""]

/-- The help of the dialogue. -/
def dialogueHelp : String := ofLines
  ["REPL Commands:",
    "  exit, quit   Exit the REPL",
    "  clear        Forget all variables",
    "  vars         List current variables",
    "  help         Show this help",
    "",
    "Examples:",
    "  \x7b\"declare\": \x7b\"var\": \"x\", \"value\": 1\x7d\x7d",
    "  \x7b\"add\": \x7b\"var\": \"x\", \"value\": 41\x7d\x7d",
    "  \x7b\"print\": \"x\"\x7d",
    "  [\x7b\"print\": \x7b\"literal\": \"hi\"\x7d\x7d, \x7b\"print\": \x7b\"greater_than\": [\"x\", 40]\x7d\x7d]"]

/-- What a dialogue ends with. -/
def farewell : String := ofLines ["Goodbye!"]

end JsonScript.Texts
