import FluxProofs.Remote.Value
import FluxProofs.Remote.Diff
import FluxProofs.Remote.Differences
import FluxProofs.Remote.Equiv
import FluxProofs.Remote.DiffOrder
import FluxProofs.Errors.Basic
import FluxProofs.Rpc.Server
import FluxProofs.Http.Errors
import FluxProofs.Http.Query
import FluxProofs.Http.Api
import FluxProofs.Json.Utf8
import FluxProofs.Json.String
import FluxProofs.Json.Value
import FluxProofs.Json.Base64
import FluxProofs.Json.Results
import FluxProofs.Http.Calls
import FluxProofs.Service.Config
import FluxProofs.Manifest.Regexp
import FluxProofs.Manifest.Yaml
import FluxProofs.Manifest.Annotations
import FluxProofs.Manifest.Policies
import FluxProofs.Http.Logging
import FluxProofs.Http.Handlers
